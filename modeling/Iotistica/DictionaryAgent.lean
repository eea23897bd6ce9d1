import Iotistica.JsText
import Iotistica.OrderedMap
import Iotistica.UniqueTable
import Mathlib.Data.List.Sort

/-!
# Agent side of the field dictionary

A field name belongs to one of five domains and gets the size of its
domain's map as index when it is first met. The index is written to the
database in three statements and the call that asked for it does not wait
for them. Statistics, the debounce timer and the enum tables are left out:
no index depends on them.
-/

set_option autoImplicit false

namespace Iotistica.AgentDictionary
open Iotistica Iotistica.JsText

inductive Domain where
  | key
  | metric
  | unit
  | quality
  | device
  deriving DecidableEq

def shouldSkipField (fieldName : String) : Bool := includes fieldName "qualityCode"

/-- What follows the last dot or opening bracket. The pattern the source
removes from the end of it begins with a bracket and never occurs there. -/
def extractBaseName (fieldName : String) : String :=
  String.ofList (fieldName.toList.reverse.takeWhile (fun c => c != '.' && c != '[')).reverse

def matchesKeyword (keywords : List String) (fieldName : String) : Bool :=
  let lowerName := toLowerCase fieldName
  keywords.any (fun kw => lowerName == kw || endsWith lowerName ("_"++kw))

def isQualityField (fieldName : String) : Bool :=
  matchesKeyword ["quality","qualityCode","code","status","state","condition"] fieldName

def isUnitField (fieldName : String) : Bool :=
  matchesKeyword ["unit","unitCode","engineering_unit","unit_of_measure"] fieldName

def inferDomain (fieldName : String) : Domain :=
  if startsWith fieldName "quality." then .quality
  else if startsWith fieldName "unit." then .unit
  else if startsWith fieldName "device." then .device
  else if startsWith fieldName "metric." then .metric
  else if startsWith fieldName "key." then .key
  else
    let baseName := extractBaseName fieldName
    if isQualityField baseName then .quality
    else if isUnitField baseName then .unit
    else if includes fieldName "_slave_" || includes fieldName "_gateway_" ||
        includes baseName "device" || includes baseName "gateway" then .device
    else if includes fieldName "[" || includes fieldName "]" then .key
    else .metric

structure Entry where
  fieldName : String
  fieldIndex : ℕ
  versionAdded : ℕ
  domain : Domain
  deriving DecidableEq

def Entry.slot (e : Entry) : Domain × ℕ := (e.domain,e.fieldIndex)

structure Delta where
  id : ℕ
  version : ℕ
  fieldName : String
  fieldIndex : ℕ
  domain : Domain
  syncedToCloud : Bool
  deriving DecidableEq

def Delta.slot (d : Delta) : Domain × ℕ := (d.domain,d.fieldIndex)

structure Database where
  entries : UniqueTable Entry Entry.fieldName Entry.slot
  deltas : UniqueTable Delta Delta.id Delta.slot
  lastDeltaId : ℕ
  currentVersion : Option ℕ

def Database.fresh : Database := ⟨.empty,.empty,0,none⟩

def saveEntry (db : Database) (fieldName : String) (fieldIndex version : ℕ) (domain : Domain) :
    Option Database :=
  (db.entries.insert ⟨fieldName,fieldIndex,version,domain⟩).map (fun t => { db with entries := t })

def saveDelta (db : Database) (fieldName : String) (fieldIndex version : ℕ) (domain : Domain) :
    Option Database :=
  (db.deltas.insert ⟨db.lastDeltaId+1,version,fieldName,fieldIndex,domain,false⟩).map
    (fun t => { db with deltas := t, lastDeltaId := db.lastDeltaId+1 })

def setCurrentVersion (db : Database) (version : ℕ) : Database :=
  { db with currentVersion := some version }

def getCurrentVersion (db : Database) : ℕ := db.currentVersion.getD 1

def clearAll (db : Database) : Database :=
  setCurrentVersion { db with deltas := .empty, entries := .empty } 1

def loadDictionary (db : Database) (d : Domain) : OrderedMap String ℕ :=
  OrderedMap.empty.assignAll
    (((db.entries.rows.insertionSort (fun a b => a.fieldIndex ≤ b.fieldIndex)).filter
      (fun e => e.domain = d)).map (fun e => (e.fieldName,e.fieldIndex)))

/-- The statement of `persistNewField` at which a call fails of itself. -/
inductive Fault where
  | entry
  | delta
  | version
  deriving DecidableEq

/-- The three statements in order; a failed one ends the call, and what was
written before it stays. -/
def persistNewField (db : Database) (fieldName : String) (fieldIndex version : ℕ)
    (domain : Domain) (fault : Option Fault) : Database :=
  if fault = some .entry then db
  else
    match saveEntry db fieldName fieldIndex version domain with
    | none => db
    | some db =>
      if fault = some .delta then db
      else
        match saveDelta db fieldName fieldIndex version domain with
        | none => db
        | some db => if fault = some .version then db else setCurrentVersion db version

structure Agent where
  domains : Domain → OrderedMap String ℕ
  workingVersion : ℕ
  dictionaryVersion : ℕ
  lastSyncedVersion : ℕ
  hasUnsyncedEnumPromotions : Bool
  db : Database

def Agent.fresh (db : Database) : Agent := ⟨fun _ => .empty,1,1,0,false,db⟩

def initializeAgent (db : Database) : Agent :=
  { Agent.fresh db with
    domains := loadDictionary db
    dictionaryVersion := getCurrentVersion db
    workingVersion := getCurrentVersion db }

def reset (a : Agent) : Agent :=
  { a with
    domains := fun _ => .empty
    workingVersion := 1
    dictionaryVersion := 1
    db := clearAll a.db }

def addField (a : Agent) (fieldName : String) (fault : Option Fault) : Agent :=
  let domain := inferDomain fieldName
  let index := (a.domains domain).size
  { a with
    domains := Function.update a.domains domain ((a.domains domain).set fieldName index)
    workingVersion := a.workingVersion+1
    db := persistNewField a.db fieldName index (a.workingVersion+1) domain fault }

def getIndex (a : Agent) (fieldName : String) (fault : Option Fault) : ℤ × Agent :=
  if shouldSkipField fieldName then (-1,a)
  else
    match (a.domains (inferDomain fieldName)).get? fieldName with
    | some index => (index,a)
    | none => ((a.domains (inferDomain fieldName)).size,addField a fieldName fault)

def allDomains : List Domain := [.key,.metric,.unit,.quality,.device]

def getTotalDictionarySize (a : Agent) : ℕ :=
  (allDomains.map (fun d => (a.domains d).size)).foldl (· + ·) 0

def fieldsOf (a : Agent) (d : Domain) : List String :=
  ((a.domains d).entries.insertionSort (fun e f => e.2 ≤ f.2)).map Prod.fst

structure FullPayload where
  version : ℕ
  fields : List String
  deriving DecidableEq

def fullPayload (a : Agent) : FullPayload :=
  ⟨a.dictionaryVersion,allDomains.flatMap (fieldsOf a)⟩

def syncFullDictionary (a : Agent) : Option FullPayload × Agent :=
  if getTotalDictionarySize a = 0 then (none,a)
  else if a.dictionaryVersion = a.lastSyncedVersion then (none,a)
  else (some (fullPayload a),{ a with lastSyncedVersion := a.dictionaryVersion })

structure DeltaPayload where
  version : ℕ
  newFields : List String
  deriving DecidableEq

def getUnsyncedDeltas (db : Database) : List Delta :=
  (db.deltas.rows.filter (fun d => !d.syncedToCloud)).insertionSort (fun a b => a.version ≤ b.version)

def markDeltasSynced (db : Database) (ids : List ℕ) : Database :=
  { db with
    deltas :=
      { rows := db.deltas.rows.map
          (fun d => if d.id ∈ ids then { d with syncedToCloud := true } else d)
        keys_nodup := by
          rw [List.map_map]
          have h : (Delta.id ∘ fun d : Delta =>
              if d.id ∈ ids then { d with syncedToCloud := true } else d) = Delta.id := by
            funext d
            by_cases hd : d.id ∈ ids <;> simp [hd]
          rw [h]
          exact db.deltas.keys_nodup
        slots_nodup := by
          rw [List.map_map]
          have h : (Delta.slot ∘ fun d : Delta =>
              if d.id ∈ ids then { d with syncedToCloud := true } else d) = Delta.slot := by
            funext d
            by_cases hd : d.id ∈ ids <;> simp [hd, Delta.slot]
          rw [h]
          exact db.deltas.slots_nodup } }

def syncDeltaDictionary (a : Agent) : Option DeltaPayload × Agent :=
  if getTotalDictionarySize a = 0 then (none,a)
  else
    let unsyncedDeltas := getUnsyncedDeltas a.db
    if unsyncedDeltas = [] ∧ a.hasUnsyncedEnumPromotions = false then (none,a)
    else
      (some ⟨a.dictionaryVersion,unsyncedDeltas.map Delta.fieldName⟩,
        { a with
          db := markDeltasSynced a.db (unsyncedDeltas.map Delta.id)
          hasUnsyncedEnumPromotions := false })

end Iotistica.AgentDictionary
