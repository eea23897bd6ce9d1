import Iotistica.OrderedMap
import Mathlib.Data.Finmap

/-!
# The table of endpoints and its reconciliation

Both the uuid and the name of a row are unique. A statement that would break
this, or leave the connection of a new row empty, fails and changes nothing.
Times, the group name and the row number are left out: no endpoint is found
by them. A first pass writes the target endpoints into the table, up to the
first write that fails. A second one compares the table with the target; a
target carries the member `uuid`, which an endpoint read back lacks, so it
finds every target that is in the table to be changed.
-/

set_option autoImplicit false

namespace Iotistica.Endpoints
open Iotistica

/-- A JSON value; an object or array is an opaque `J`. -/
inductive Value (J : Type) where
  | null
  | bool (b : Bool)
  | num (n : ℤ)
  | str (s : String)
  | other (j : J)
  deriving DecidableEq

abbrev Object (J : Type) := Finmap (fun _ : String => Value J)

variable {J : Type}

def Value.truthy : Value J → Bool
  | .null => false
  | .bool b => b
  | .num n => decide (n ≠ 0)
  | .str s => decide (s ≠ "")
  | .other _ => true

structure Row (J : Type) where
  fingerprint : Option String
  name : String
  protocol : String
  enabled : Bool
  poll_interval : ℤ
  connection : Object J
  data_points : Option (List J)
  metadata : Option (Object J)
  deriving DecidableEq

structure Updates (J : Type) where
  name : Option String
  protocol : String
  enabled : Bool
  poll_interval : ℤ
  connection : Option (Object J)
  data_points : Option (List J)
  metadata : Option (Object J)
  deriving DecidableEq

structure Db (J : Type) where
  rows : OrderedMap String (Row J)
  /-- Rows whose uuid is null. -/
  missing : List (Row J)
  deriving DecidableEq

def Updates.apply (u : Updates J) (row : Row J) : Row J :=
  { row with
    name := u.name.getD row.name
    protocol := u.protocol
    enabled := u.enabled
    poll_interval := u.poll_interval
    connection := u.connection.getD row.connection
    data_points := u.data_points.or row.data_points
    metadata := u.metadata.or row.metadata }

/-- Another row than that of `uuid` has the name. -/
def nameTaken (db : Db J) (uuid name : String) : Bool :=
  db.rows.entries.any (fun e => decide (e.1 ≠ uuid) && decide (e.2.name = name)) ||
    db.missing.any (fun row => decide (row.name = name))

def getByUuid (db : Db J) (uuid : String) : Option (Row J) := db.rows.get? uuid

def getByName (db : Db J) (name : String) : Option (Row J) :=
  ((db.rows.entries.map Prod.snd)++db.missing).find? (fun row => decide (row.name = name))

def deleteMissingUuid (db : Db J) : Db J := { db with missing := [] }

def deleteByUuid (db : Db J) (uuid : String) : Db J := { db with rows := db.rows.delete uuid }

def updateByUuid (db : Db J) (uuid : String) (u : Updates J) : Option (Db J) :=
  match db.rows.get? uuid with
  | none => some db
  | some row =>
    if u.name.any (nameTaken db uuid) then none
    else some { db with rows := db.rows.set uuid (u.apply row) }

def newRow (name : String) (u : Updates J) (connection : Object J) : Row J where
  fingerprint := none
  name := name
  protocol := u.protocol
  enabled := u.enabled
  poll_interval := u.poll_interval
  connection := connection
  data_points := u.data_points
  metadata := u.metadata

def create (db : Db J) (uuid name : String) (u : Updates J) : Option (Db J) :=
  match u.connection with
  | none => none
  | some connection =>
    if uuid ∈ db.rows.keys ∨ nameTaken db uuid name = true then none
    else some { db with rows := db.rows.set uuid (newRow name u connection) }

/-- All rows with the fingerprint are set, or none if two rows would get the
same name. -/
def updateByFingerprint (db : Db J) (fingerprint : String) (u : Updates J) : Option (Db J) :=
  let hit (row : Row J) := decide (row.fingerprint = some fingerprint)
  if db.rows.entries.any (fun e => hit e.2 && u.name.any (nameTaken db e.1)) then none
  else some { db with rows := db.rows.mapValues (fun row => if hit row then u.apply row else row) }

def upsert (db : Db J) (randomUUID name : String) (u : Updates J) : Option (Db J) :=
  match getByName db name with
  | some existing => updateByFingerprint db (existing.fingerprint.getD "") u
  | none => create db randomUUID name u

theorem get?_none_iff (m : OrderedMap String (Row J)) (uuid : String) :
    m.get? uuid = none ↔ uuid ∉ m.keys := by
  constructor
  · exact OrderedMap.not_mem_keys_of_get?
  · intro h
    cases hg : m.get? uuid with
    | none => rfl
    | some row =>
      have hm := (OrderedMap.get?_eq_some_iff m uuid row).mp hg
      exact absurd (List.mem_map_of_mem hm) h

theorem create_eq_some {db db' : Db J} {uuid name : String} {u : Updates J}
    (h : create db uuid name u = some db') :
    ∃ connection, u.connection = some connection ∧
      db' = { db with rows := db.rows.set uuid (newRow name u connection) } := by
  rw [create] at h
  cases hc : u.connection with
  | none =>
    rw [hc] at h
    cases h
  | some connection =>
    rw [hc] at h
    simp only at h
    split at h
    · cases h
    · exact ⟨connection,rfl,(Option.some.inj h).symm⟩

theorem get?_upsert_none {db db' : Db J} {randomUUID name uuid : String} {u : Updates J}
    (h : upsert db randomUUID name u = some db') (hne : uuid ≠ randomUUID)
    (hg : db.rows.get? uuid = none) : db'.rows.get? uuid = none := by
  rw [upsert] at h
  split at h
  · rw [updateByFingerprint] at h
    simp only at h
    split at h
    · cases h
    · cases h
      rw [OrderedMap.get?_mapValues, hg]
      rfl
  · obtain ⟨connection,_,rfl⟩ := create_eq_some h
    rw [OrderedMap.get?_set, if_neg hne]
    exact hg

theorem updateByUuid_unnamed {db : Db J} {uuid : String} {u : Updates J} {row : Row J}
    (hn : u.name = none) (hg : db.rows.get? uuid = some row) :
    updateByUuid db uuid u = some { db with rows := db.rows.set uuid (u.apply row) } := by
  rw [updateByUuid, hg, hn]
  rfl

theorem nameTaken_iff (db : Db J) (uuid name : String) (hm : db.missing = []) :
    nameTaken db uuid name = true ↔
      ∃ k row, db.rows.get? k = some row ∧ k ≠ uuid ∧ row.name = name := by
  rw [nameTaken, hm, List.any_nil, Bool.or_false, List.any_eq_true]
  constructor
  · rintro ⟨e,he,h⟩
    rw [Bool.and_eq_true, decide_eq_true_iff, decide_eq_true_iff] at h
    exact ⟨e.1,e.2,OrderedMap.get?_of_mem he,h⟩
  · rintro ⟨k,row,hg,h1,h2⟩
    refine ⟨(k,row),(OrderedMap.get?_eq_some_iff _ _ _).mp hg,?_⟩
    rw [Bool.and_eq_true, decide_eq_true_iff, decide_eq_true_iff]
    exact ⟨h1,h2⟩

/-- An absent member is `none`. -/
structure Target (J : Type) where
  uuid : Option String
  name : String
  protocol : String
  enabled : Option Bool
  pollInterval : Option ℤ
  poll_interval : Option ℤ
  connection : Option (Object J)
  connectionString : Option String
  dataPoints : Option (List J)
  data_points : Option (List J)
  registers : Option (List J)
  metadata : Option (Object J)
  deriving DecidableEq

/-- What is around the config manager. `parseJson` gives the members of the
object a text stands for, `parseUrl` the host and the port of a URL, and
`discovered` the points cached for an address, none if there is no discovery
service. The writes of the endpoints in `fails` fail. -/
structure Surroundings (J : Type) where
  parseJson : String → Option (Object J)
  parseUrl : String → Option (String × Option ℕ)
  discovered : Value J → List J
  randomUUID : Target J → String
  fails : String → Bool

/-- An empty string is falsy. -/
def nonempty (s : Option String) : Option String := s.filter (fun s => decide (s ≠ ""))

/-- Zero is falsy. -/
def nonzero (n : Option ℤ) : Option ℤ := n.filter (fun n => decide (n ≠ 0))

def parseConnectionValue (env : Surroundings J) (source : Target J) : Option (Object J) :=
  match source.connection with
  | some connection => some connection
  | none => (nonempty source.connectionString).bind env.parseJson

def isModbusDiscoveryTarget (device : Target J) (connection : Option (Object J)) : Bool :=
  decide (device.protocol = "modbus") && connection.any (fun c => decide ("slaveRange" ∈ c))

def canonicalId (env : Surroundings J) (device : Target J) : Option String :=
  if isModbusDiscoveryTarget device (parseConnectionValue env device) then none
  else nonempty device.uuid

def isEnabled (device : Target J) : Bool := device.enabled.getD true

def normalizeDevice (device : Target J) : Updates J where
  name := some device.name
  protocol := device.protocol
  enabled := isEnabled device
  poll_interval := ((nonzero device.pollInterval).or (nonzero device.poll_interval)).getD 5000
  connection := device.connection
  data_points := (device.dataPoints.or device.data_points).or device.registers
  metadata := device.metadata

def resolveAdapterConnection (env : Surroundings J) (device : Target J) : Object J :=
  match nonempty device.connectionString with
  | some text =>
    match env.parseUrl text with
    | some (host,port) =>
      (Finmap.singleton "host" (.str host)).insert "port"
        (.num (((port.filter (fun n => decide (n ≠ 0))).getD 502 : ℕ) : ℤ))
    | none => Finmap.singleton "connectionString" (.str text)
  | none => device.connection.getD ∅

def buildEndpointMetadata (device : Target J) (connection : Object J)
    (overwriteModbusSlaveId : Bool) : Object J :=
  let metadata := device.metadata.getD ∅
  match connection.lookup "unitId" with
  | none => metadata
  | some unitId =>
    if decide (device.protocol = "modbus") &&
        (overwriteModbusSlaveId || !(metadata.lookup "slaveId").any Value.truthy) then
      metadata.insert "slaveId" unitId
    else metadata

def preserved (existing : Row J) (points : Option (List J)) : Option (List J) :=
  if existing.data_points.getD [] ≠ [] ∧ points.getD [] = [] then existing.data_points else points

def cachedPoints (env : Surroundings J) (connection : Option (Object J)) : List J :=
  match (connection.bind (fun c => c.lookup "endpointUrl")).filter Value.truthy with
  | some endpointUrl => env.discovered endpointUrl
  | none => []

def initialPoints (env : Surroundings J) (device : Updates J) : Option (List J) :=
  if cachedPoints env device.connection ≠ [] then some (cachedPoints env device.connection)
  else device.data_points

def syncDevice (env : Surroundings J) (db : Db J) (device : Target J) (uuid : String) : Option (Db J) :=
  let normalizedDevice := normalizeDevice device
  if env.fails uuid then none
  else
    match getByUuid db uuid with
    | some existing =>
      updateByUuid db uuid
        { normalizedDevice with data_points := preserved existing normalizedDevice.data_points }
    | none =>
      create db uuid device.name
        { normalizedDevice with data_points := initialPoints env normalizedDevice }

def syncDevices (env : Surroundings J) (db : Db J) : List (Target J) → Db J
  | [] => db
  | device::devices =>
    match canonicalId env device with
    | none => syncDevices env db devices
    | some uuid =>
      match syncDevice env db device uuid with
      | none => db
      | some db => syncDevices env db devices

def syncDevicesToDatabase (env : Surroundings J) (db : Db J) (devices : List (Target J)) : Db J :=
  if devices = [] then db else syncDevices env (deleteMissingUuid db) devices

inductive Step (J : Type) where
  | registerDevice (device : Target J) (id : String)
  | unregisterDevice (id : String)
  | updateDevice (device : Target J) (id : String)
  deriving DecidableEq

def targetDevices (env : Surroundings J) (devices : List (Target J)) : List (Target J × String) :=
  devices.filterMap (fun device => (canonicalId env device).map (fun id => (device,id)))

def currentIds (db : Db J) : List String := db.rows.keys.filter (fun id => decide (id ≠ ""))

def calculateSteps (env : Surroundings J) (db : Db J) (devices : List (Target J)) : List (Step J) :=
  let targets := targetDevices env devices
  (targets.filter (fun t => decide (t.2 ∉ currentIds db))).map (fun t => .registerDevice t.1 t.2)++
    (((currentIds db).filter (fun id => decide (id ∉ targets.map Prod.snd))).map .unregisterDevice++
      (targets.filter (fun t => decide (t.2 ∈ currentIds db))).map (fun t => .updateDevice t.1 t.2))

def adapterUpdates (env : Surroundings J) (device : Target J) (overwriteModbusSlaveId : Bool)
    (points : Option (List J)) : Updates J where
  name := none
  protocol := device.protocol
  enabled := isEnabled device
  poll_interval := (nonzero device.pollInterval).getD 5000
  connection := some (resolveAdapterConnection env device)
  data_points := points
  metadata := some (buildEndpointMetadata device (resolveAdapterConnection env device)
    overwriteModbusSlaveId)

def adapterPoints (device : Target J) : List J := (device.dataPoints.or device.registers).getD []

def registerEndpoint (env : Surroundings J) (db : Db J) (device : Target J) (id : String) :
    Option (Db J) :=
  if env.fails id then none
  else
    upsert db (env.randomUUID device) device.name
      { adapterUpdates env device true (some (adapterPoints device)) with name := some device.name }

def updateEndpoint (env : Surroundings J) (db : Db J) (device : Target J) (id : String) :
    Option (Db J) :=
  if env.fails id then none
  else
    match getByUuid db id with
    | some existing =>
      updateByUuid db id
        (adapterUpdates env device false (preserved existing (some (adapterPoints device))))
    | none =>
      create db id device.name (adapterUpdates env device false (some (adapterPoints device)))

def executeStep (env : Surroundings J) (db : Db J) : Step J → Option (Db J)
  | .registerDevice device id => registerEndpoint env db device id
  | .unregisterDevice id => some (deleteByUuid db id)
  | .updateDevice device id => updateEndpoint env db device id

def executeSteps (env : Surroundings J) (db : Db J) (steps : List (Step J)) : Db J :=
  steps.foldl (fun db step => (executeStep env db step).getD db) db

def reconcile (env : Surroundings J) (db : Db J) (devices : List (Target J)) : Db J :=
  let synced := syncDevicesToDatabase env db devices
  executeSteps env synced (calculateSteps env synced devices)

end Iotistica.Endpoints
