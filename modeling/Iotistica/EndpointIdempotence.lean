import Iotistica.EndpointPasses

/-!
# Reconciling the same target again

An endpoint of the current config is read back from its row under other
members than a target has: a target carries its `uuid`, the endpoint read
back an `id`, a connection string and nothing else of the connection. So the
comparison never finds a target in step with its row, and each reconciliation
with a target to reconcile reports a change.
-/

set_option autoImplicit false

namespace Iotistica.Endpoints
open Iotistica

variable {J : Type}

inductive Field (J : Type) where
  | null
  | text (s : String)
  | flag (b : Bool)
  | number (n : ℤ)
  | object (o : Object J)
  | list (l : List J)
  deriving DecidableEq

abbrev Members (J : Type) := List (String × Field J)

def optional {α : Type} (key : String) (field : α → Field J) : Option α → Members J
  | some a => [(key,field a)]
  | none => []

def targetMembers (device : Target J) (id : String) : Members J :=
  optional "uuid" .text device.uuid++[("name",.text device.name),("protocol",.text device.protocol)]
    ++optional "enabled" .flag device.enabled++optional "pollInterval" .number device.pollInterval
    ++optional "poll_interval" .number device.poll_interval
    ++optional "connection" .object device.connection
    ++optional "connectionString" .text device.connectionString
    ++optional "dataPoints" .list device.dataPoints++optional "data_points" .list device.data_points
    ++optional "registers" .list device.registers++optional "metadata" .object device.metadata
    ++[("id",.text id)]

/-- An endpoint of the current config as it is read back from its row. -/
def currentMembers (stringify : Object J → String) (id : String) (row : Row J) : Members J :=
  [("id",.text id),("name",.text row.name),("protocol",.text row.protocol),
    ("connectionString",.text (stringify row.connection)),("pollInterval",.number row.poll_interval),
    ("enabled",.flag row.enabled),("metadata",(row.metadata.map .object).getD .null),
    ("dataPoints",(row.data_points.map .list).getD .null)]

/-- Deep equality of two objects; the members of nested ones are compared as
values. -/
def deepEqual [DecidableEq J] (a b : Members J) : Bool :=
  decide (a.length = b.length) && a.all (fun e => decide (b.lookup e.1 = some e.2))

def comparedSteps [DecidableEq J] (stringify : Object J → String) (env : Surroundings J)
    (db : Db J) (devices : List (Target J)) : List (Step J) :=
  let targets := targetDevices env devices
  let changed (t : Target J × String) : Bool :=
    match db.rows.get? t.2 with
    | some row => !deepEqual (targetMembers t.1 t.2) (currentMembers stringify t.2 row)
    | none => false
  (targets.filter (fun t => decide (t.2 ∉ currentIds db))).map (fun t => .registerDevice t.1 t.2)++
    (((currentIds db).filter (fun id => decide (id ∉ targets.map Prod.snd))).map .unregisterDevice++
      (targets.filter (fun t => decide (t.2 ∈ currentIds db) && changed t)).map
        (fun t => .updateDevice t.1 t.2))

theorem lookup_uuid_current (stringify : Object J → String) (id : String) (row : Row J) :
    (currentMembers stringify id row).lookup "uuid" = none := rfl

theorem deepEqual_current [DecidableEq J] (stringify : Object J → String) {device : Target J}
    {uuid : String} (hu : device.uuid = some uuid) (id : String) (row : Row J) :
    deepEqual (targetMembers device id) (currentMembers stringify id row) = false := by
  rw [deepEqual, Bool.and_eq_false_iff]
  right
  rw [List.all_eq_false]
  refine ⟨("uuid",.text uuid),?_,?_⟩
  · simp [targetMembers, optional, hu]
  · rw [lookup_uuid_current]
    simp

theorem currentId_get? {db : Db J} {id : String} (h : id ∈ currentIds db) :
    ∃ row, db.rows.get? id = some row := by
  have hk := (List.mem_filter.mp h).1
  cases hg : db.rows.get? id with
  | none => exact absurd hk ((get?_none_iff _ _).mp hg)
  | some row => exact ⟨row,rfl⟩

theorem comparedSteps_eq [DecidableEq J] (stringify : Object J → String) (env : Surroundings J)
    (db : Db J) (devices : List (Target J)) :
    comparedSteps stringify env db devices = calculateSteps env db devices := by
  unfold comparedSteps calculateSteps
  simp only
  congr 3
  apply List.filter_congr
  intro t ht
  by_cases hin : t.2 ∈ currentIds db
  · obtain ⟨row,hrow⟩ := currentId_get? hin
    have hu := (uuid_of_canonicalId ((mem_targetDevices env devices t.1 t.2).mp ht).2).1
    simp only [hin, decide_true, hrow, deepEqual_current stringify hu, Bool.not_false, Bool.and_self]
  · simp [hin]

structure ConfigReconciliationResult where
  success : Bool
  devicesRegistered : ℕ
  devicesUpdated : ℕ
  devicesUnregistered : ℕ
  /-- The endpoints whose step failed. -/
  errors : List String
  deriving DecidableEq

def Step.deviceId : Step J → String
  | .registerDevice _ id => id
  | .unregisterDevice id => id
  | .updateDevice _ id => id

def ConfigReconciliationResult.count (r : ConfigReconciliationResult) :
    Step J → ConfigReconciliationResult
  | .registerDevice _ _ => { r with devicesRegistered := r.devicesRegistered+1 }
  | .unregisterDevice _ => { r with devicesUnregistered := r.devicesUnregistered+1 }
  | .updateDevice _ _ => { r with devicesUpdated := r.devicesUpdated+1 }

def reportStep (env : Surroundings J) (acc : Db J × ConfigReconciliationResult) (step : Step J) :
    Db J × ConfigReconciliationResult :=
  match executeStep env acc.1 step with
  | some db => (db,acc.2.count step)
  | none => (acc.1,{ acc.2 with success := false, errors := acc.2.errors++[step.deviceId] })

def noChanges : ConfigReconciliationResult := ⟨true,0,0,0,[]⟩

def reconcileReported (env : Surroundings J) (db : Db J) (devices : List (Target J)) :
    Db J × ConfigReconciliationResult :=
  let synced := syncDevicesToDatabase env db devices
  (calculateSteps env synced devices).foldl (reportStep env) (synced,noChanges)

def hasEndpointChanges (r : ConfigReconciliationResult) : Bool :=
  decide (0 < r.devicesRegistered+r.devicesUpdated+r.devicesUnregistered)

theorem reportStep_fst (env : Surroundings J) (acc : Db J × ConfigReconciliationResult)
    (step : Step J) :
    (reportStep env acc step).1 = (executeStep env acc.1 step).getD acc.1 := by
  unfold reportStep
  cases executeStep env acc.1 step <;> rfl

theorem reconcileReported_fst (env : Surroundings J) (db : Db J) (devices : List (Target J)) :
    (reconcileReported env db devices).1 = reconcile env db devices := by
  have hrun : ∀ (steps : List (Step J)) (acc : Db J × ConfigReconciliationResult),
      (steps.foldl (reportStep env) acc).1 = executeSteps env acc.1 steps := by
    intro steps
    induction steps with
    | nil => exact fun acc => rfl
    | cons step steps ih =>
      intro acc
      rw [List.foldl_cons, ih, reportStep_fst]
      rfl
  exact hrun _ _

/-- A second reconciliation with the same target has nothing to do: no steps,
no changed devices, no row touched. -/
def Idempotent [DecidableEq J] (stringify : Object J → String) (env : Surroundings J) (db : Db J)
    (devices : List (Target J)) : Prop :=
  let first := reconcile env db devices
  comparedSteps stringify env (syncDevicesToDatabase env first devices) devices = [] ∧
    hasEndpointChanges (reconcileReported env first devices).2 = false ∧
    reconcile env first devices = first

theorem calculateSteps_eq_nil_iff (env : Surroundings J) (db : Db J) (devices : List (Target J)) :
    calculateSteps env db devices = [] ↔ targetDevices env devices = [] ∧ currentIds db = [] := by
  constructor
  · intro h
    unfold calculateSteps at h
    simp only [List.append_eq_nil_iff, List.map_eq_nil_iff, List.filter_eq_nil_iff] at h
    have htargets : targetDevices env devices = [] := by
      rw [List.eq_nil_iff_forall_not_mem]
      intro t ht
      by_cases hin : t.2 ∈ currentIds db
      · exact h.2.2 t ht (by simpa using hin)
      · exact h.1 t ht (by simpa using hin)
    refine ⟨htargets,?_⟩
    rw [List.eq_nil_iff_forall_not_mem]
    intro id hid
    exact h.2.1 id hid (by simp [htargets])
  · rintro ⟨ht,hc⟩
    simp [calculateSteps, ht, hc]

theorem syncDevices_untargeted {env : Surroundings J} {devices : List (Target J)}
    (h : targetDevices env devices = []) (db : Db J) : syncDevices env db devices = db := by
  induction devices with
  | nil => rfl
  | cons d devices ih =>
    rw [targetDevices, List.filterMap_cons] at h
    rw [syncDevices]
    cases hc : canonicalId env d with
    | none =>
      rw [hc] at h
      exact ih h
    | some uuid =>
      rw [hc] at h
      cases h

theorem executeSteps_unregistrations (env : Surroundings J) (db : Db J) (ids : List String) :
    executeSteps env db (ids.map .unregisterDevice) = ids.foldl deleteByUuid db := by
  unfold executeSteps
  rw [List.foldl_map]
  rfl

theorem missing_deletions (db : Db J) (ids : List String) :
    (ids.foldl deleteByUuid db).missing = db.missing := by
  induction ids generalizing db with
  | nil => rfl
  | cons id ids ih => exact ih (deleteByUuid db id)

theorem reconcile_untargeted {env : Surroundings J} {devices : List (Target J)}
    (h : targetDevices env devices = []) (db : Db J) :
    reconcile env db devices =
      (currentIds (syncDevicesToDatabase env db devices)).foldl deleteByUuid
        (syncDevicesToDatabase env db devices) := by
  rw [reconcile, ← executeSteps_unregistrations env]
  congr 1
  simp [calculateSteps, h]

theorem currentIds_untargeted {env : Surroundings J} {devices : List (Target J)}
    (h : targetDevices env devices = []) (db : Db J) :
    currentIds (reconcile env db devices) = [] := by
  rw [reconcile_untargeted h, List.eq_nil_iff_forall_not_mem]
  intro id hid
  obtain ⟨row,hrow⟩ := currentId_get? hid
  have hne := (List.mem_filter.mp hid).2
  rw [← executeSteps_unregistrations env, get?_unregistrations] at hrow
  split at hrow
  · cases hrow
  · rename_i hout
    apply hout
    apply List.mem_filter.mpr
    refine ⟨?_,hne⟩
    by_contra hk
    rw [(get?_none_iff _ _).mpr hk] at hrow
    cases hrow

theorem sync_reconcile_untargeted {env : Surroundings J} {devices : List (Target J)}
    (h : targetDevices env devices = []) (db : Db J) :
    syncDevicesToDatabase env (reconcile env db devices) devices = reconcile env db devices := by
  by_cases hd : devices = []
  · rw [syncDevicesToDatabase, if_pos hd]
  · have hmissing : (reconcile env db devices).missing = [] := by
      rw [reconcile_untargeted h, missing_deletions, syncDevicesToDatabase, if_neg hd,
        syncDevices_untargeted h]
      rfl
    rw [syncDevicesToDatabase, if_neg hd, syncDevices_untargeted h, deleteMissingUuid, ← hmissing]

/-- Reconciling the same target again has nothing to do exactly when no
target is reconciled at all. -/
theorem reconcile_idempotent_iff [DecidableEq J] (stringify : Object J → String)
    (env : Surroundings J) (db : Db J) (devices : List (Target J)) :
    Idempotent stringify env db devices ↔ targetDevices env devices = [] := by
  unfold Idempotent
  simp only [comparedSteps_eq]
  constructor
  · intro h
    exact ((calculateSteps_eq_nil_iff _ _ _).mp h.1).1
  · intro h
    have hsync := sync_reconcile_untargeted h db
    have hsteps : calculateSteps env (reconcile env db devices) devices = [] :=
      (calculateSteps_eq_nil_iff _ _ _).mpr ⟨h,currentIds_untargeted h db⟩
    refine ⟨by rw [hsync, hsteps],?_,?_⟩
    · rw [reconcileReported, hsync, hsteps]
      rfl
    · rw [reconcile, hsync, hsteps]
      rfl

def press : Target ℕ where
  uuid := some "u1"
  name := "press"
  protocol := "modbus"
  enabled := some true
  pollInterval := some 1000
  poll_interval := none
  connection := some (Finmap.singleton "host" (.str "10.0.0.7"))
  connectionString := none
  dataPoints := some [40001]
  data_points := none
  registers := none
  metadata := none

def calmSite : Surroundings ℕ where
  parseJson _ := none
  parseUrl _ := none
  discovered _ := []
  randomUUID d := "random-"++d.name
  fails _ := false

/-- The first reconciliation succeeds, and the second one reports the endpoint
as updated. -/
theorem reconcile_not_idempotent :
    ¬∀ (stringify : Object ℕ → String) (env : Surroundings ℕ) (db : Db ℕ)
      (devices : List (Target ℕ)), (reconcileReported env db devices).2.success = true →
      Idempotent stringify env db devices := by
  intro h
  have hchanges := (h (fun _ => "") calmSite ⟨OrderedMap.empty,[]⟩ [press] (by decide +kernel)).2.1
  exact absurd hchanges (by decide +kernel)

end Iotistica.Endpoints
