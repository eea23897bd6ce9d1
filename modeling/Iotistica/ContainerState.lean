import Iotistica.KeyedRecords
import Iotistica.OrderedMap

/-!
# Device state of the container manager

Apps are filed under their id and hold a list of services. The helpers
below are the only writers of the current state while steps are executed.
The error report of a service (`serviceStatus`, `error`) is written but
never read by planning or execution and is left out, and so are the parts
of a configuration that are handed to Docker and never read back: command,
user, stop signal, resource limits and health checks.
-/

set_option autoImplicit false

namespace Iotistica.ContainerState
open Iotistica

inductive Lifecycle where
  | running
  | stopped
  | paused
  deriving DecidableEq, Repr

structure ServiceConfig where
  environment : Option (OrderedMap String String) := none
  ports : Option (List String) := none
  volumes : Option (List String) := none
  networks : Option (List String) := none
  networkMode : Option String := none
  restart : Option String := none
  labels : Option (OrderedMap String String) := none
  privileged : Bool := false
  capAdd : List String := []
  pidMode : Option String := none
  ipcMode : Option String := none
  usernsMode : Option String := none
  deriving DecidableEq

/-- `networks` and `volumes` outside the configuration are an older
spelling that only the planner falls back to. -/
structure ContainerService where
  serviceId : ℕ
  serviceName : String
  imageName : String
  appId : ℕ
  appName : String
  state : Option Lifecycle := none
  config : ServiceConfig := {}
  containerId : Option String := none
  status : Option String := none
  networks : Option (List String) := none
  volumes : Option (List String) := none
  deriving DecidableEq

structure DeviceApp where
  appId : ℕ
  appName : String
  appUuid : Option String := none
  services : List ContainerService
  deriving DecidableEq

structure DeviceState where
  apps : KeyedRecords DeviceApp DeviceApp.appId

def findService (services : List ContainerService) (serviceId : ℕ) : Option ContainerService :=
  services.find? (fun s => s.serviceId == serviceId)

def getServiceFromCurrentState (s : DeviceState) (appId serviceId : ℕ) :
    Option ContainerService :=
  (s.apps.find? appId).bind (fun app => findService app.services serviceId)

def DeviceState.putApp (s : DeviceState) (app : DeviceApp) : DeviceState := ⟨s.apps.put app⟩

def removeServiceFromCurrentState (s : DeviceState) (appId serviceId : ℕ) : DeviceState :=
  match s.apps.find? appId with
  | none => s
  | some app =>
    let services := app.services.filter (fun svc => svc.serviceId != serviceId)
    if services.isEmpty then ⟨s.apps.erase appId⟩ else s.putApp { app with services := services }

def addServiceToCurrentState (s : DeviceState) (appId : ℕ) (service : ContainerService)
    (containerId : String) : DeviceState :=
  let app := (s.apps.find? appId).getD ⟨appId,service.appName,none,[]⟩
  let added := { service with containerId := some containerId, status := some "running" }
  s.putApp { app with services := app.services++[added] }

/-- The first service with the id, as `find` returns it. -/
def updateFirst (serviceId : ℕ) (f : ContainerService → ContainerService) :
    List ContainerService → List ContainerService
  | [] => []
  | svc::services =>
    if svc.serviceId = serviceId then f svc::services
    else svc::updateFirst serviceId f services

def setState (state : Lifecycle) (svc : ContainerService) : ContainerService :=
  { svc with state := some state }

def updateServiceState (s : DeviceState) (appId serviceId : ℕ) (state : Lifecycle) : DeviceState :=
  match s.apps.find? appId with
  | none => s
  | some app =>
    s.putApp { app with services := updateFirst serviceId (setState state) app.services }

def view (s : DeviceState) (appId serviceId : ℕ) : Option ContainerService :=
  getServiceFromCurrentState s appId serviceId

def Distinct (s : DeviceState) : Prop :=
  ∀ appId, ∀ app ∈ s.apps.find? appId, (app.services.map ContainerService.serviceId).Nodup

theorem mem_find? {s : DeviceState} {appId : ℕ} {app : DeviceApp}
    (h : s.apps.find? appId = some app) : app.appId = appId :=
  KeyedRecords.key_of_find? h

theorem view_eq {s : DeviceState} {appId : ℕ} {app : DeviceApp}
    (h : s.apps.find? appId = some app) (serviceId : ℕ) :
    view s appId serviceId = findService app.services serviceId := by
  simp [view, getServiceFromCurrentState, h]

theorem view_none {s : DeviceState} {appId : ℕ} (h : s.apps.find? appId = none) (serviceId : ℕ) :
    view s appId serviceId = none := by
  simp [view, getServiceFromCurrentState, h]

theorem view_putApp (s : DeviceState) (app : DeviceApp) (appId serviceId : ℕ) :
    view (s.putApp app) appId serviceId =
      if appId = app.appId then findService app.services serviceId else view s appId serviceId := by
  unfold view getServiceFromCurrentState DeviceState.putApp
  rw [KeyedRecords.find?_put]
  by_cases h : appId = app.appId
  · simp [h]
  · simp [h]

theorem distinct_putApp {s : DeviceState} {app : DeviceApp} (h : Distinct s)
    (hn : (app.services.map ContainerService.serviceId).Nodup) : Distinct (s.putApp app) := by
  intro appId app' ha
  have hf : (s.apps.put app).find? appId = some app' := ha
  rw [KeyedRecords.find?_put] at hf
  by_cases he : appId = app.appId
  · simp only [he, if_true, Option.some.injEq] at hf
    subst hf
    exact hn
  · simp only [he, if_false] at hf
    exact h appId app' hf

theorem findService_id {services : List ContainerService} {id : ℕ} {svc : ContainerService}
    (h : findService services id = some svc) : svc.serviceId = id := by
  simpa using List.find?_some h

theorem findService_mem {services : List ContainerService} {id : ℕ} {svc : ContainerService}
    (h : findService services id = some svc) : svc ∈ services :=
  List.mem_of_find?_eq_some h

theorem findService_of_mem {services : List ContainerService}
    (hn : (services.map ContainerService.serviceId).Nodup) {svc : ContainerService}
    (h : svc ∈ services) : findService services svc.serviceId = some svc := by
  induction services with
  | nil => cases h
  | cons a services ih =>
    have hout := (List.nodup_cons.mp hn).1
    have hn' := (List.nodup_cons.mp hn).2
    rcases List.mem_cons.mp h with rfl | h
    · simp [findService]
    · have hne : a.serviceId ≠ svc.serviceId := by
        intro he
        apply hout
        rw [he]
        exact List.mem_map_of_mem h
      simpa [findService, hne] using ih hn' h

theorem findService_none_iff {services : List ContainerService} {id : ℕ} :
    findService services id = none ↔ id ∉ services.map ContainerService.serviceId := by
  simp [findService]

theorem findService_filter (services : List ContainerService) (id j : ℕ) :
    findService (services.filter (fun svc => svc.serviceId != id)) j =
      if j = id then none else findService services j := by
  induction services with
  | nil => simp [findService]
  | cons a services ih =>
    by_cases ha : a.serviceId = id
    · have hd : (a::services).filter (fun svc => svc.serviceId != id) =
          services.filter (fun svc => svc.serviceId != id) := by simp [ha]
      rw [hd, ih]
      by_cases hj : j = id
      · simp [hj]
      · have hne : a.serviceId ≠ j := by omega
        simp [hj, findService, hne]
    · have hd : (a::services).filter (fun svc => svc.serviceId != id) =
          a::services.filter (fun svc => svc.serviceId != id) := by simp [ha]
      rw [hd]
      by_cases haj : a.serviceId = j
      · have hj : j ≠ id := by omega
        simp [findService, haj, hj]
      · simpa [findService, haj] using ih

theorem findService_updateFirst (services : List ContainerService) (id j : ℕ)
    (f : ContainerService → ContainerService) (hf : ∀ svc, (f svc).serviceId = svc.serviceId) :
    findService (updateFirst id f services) j =
      if j = id then (findService services j).map f else findService services j := by
  induction services with
  | nil => simp [updateFirst, findService]
  | cons a services ih =>
    by_cases ha : a.serviceId = id
    · by_cases hj : j = id
      · simp [updateFirst, findService, ha, hf, hj]
      · have hne : id ≠ j := Ne.symm hj
        simp [updateFirst, findService, ha, hf, hj, hne]
    · by_cases haj : a.serviceId = j
      · have hj : j ≠ id := by omega
        simp [updateFirst, findService, haj, hj]
      · simpa [updateFirst, findService, ha, haj] using ih

theorem map_id_updateFirst (services : List ContainerService) (id : ℕ)
    (f : ContainerService → ContainerService) (hf : ∀ svc, (f svc).serviceId = svc.serviceId) :
    (updateFirst id f services).map ContainerService.serviceId =
      services.map ContainerService.serviceId := by
  induction services with
  | nil => rfl
  | cons a services ih =>
    by_cases ha : a.serviceId = id
    · simp [updateFirst, ha, hf]
    · simp [updateFirst, ha, ih]

theorem view_remove (s : DeviceState) (appId serviceId a i : ℕ) :
    view (removeServiceFromCurrentState s appId serviceId) a i =
      if a = appId ∧ i = serviceId then none else view s a i := by
  unfold removeServiceFromCurrentState
  cases hf : s.apps.find? appId with
  | none =>
    by_cases h : a = appId ∧ i = serviceId
    · simp [h, view_none hf]
    · simp [h]
  | some app =>
    have hid := mem_find? hf
    have hlook := findService_filter app.services serviceId i
    by_cases ha : a = appId
    · subst ha
      rw [view_eq hf]
      simp only [true_and]
      rw [← hlook]
      split
      · rename_i he
        have hgone : (s.apps.erase a).find? a = none := by simp [KeyedRecords.find?_erase]
        rw [List.isEmpty_iff.mp he]
        exact view_none (s := ⟨s.apps.erase a⟩) hgone i
      · rw [view_putApp, if_pos hid.symm]
    · simp only [ha, false_and, if_false]
      split
      · simp [view, getServiceFromCurrentState, KeyedRecords.find?_erase, ha]
      · rw [view_putApp, if_neg (by rw [hid]; exact ha)]

theorem distinct_remove {s : DeviceState} (h : Distinct s) (appId serviceId : ℕ) :
    Distinct (removeServiceFromCurrentState s appId serviceId) := by
  unfold removeServiceFromCurrentState
  cases hf : s.apps.find? appId with
  | none => exact h
  | some app =>
    simp only
    split
    · intro b app' hb
      have hb' : (s.apps.erase appId).find? b = some app' := hb
      rw [KeyedRecords.find?_erase] at hb'
      split at hb'
      · cases hb'
      · exact h b app' hb'
    · apply distinct_putApp h
      exact (h appId app hf).sublist (List.filter_sublist.map _)

theorem view_update (s : DeviceState) (appId serviceId : ℕ) (state : Lifecycle) (a i : ℕ) :
    view (updateServiceState s appId serviceId state) a i =
      if a = appId ∧ i = serviceId then (view s a i).map (setState state) else view s a i := by
  unfold updateServiceState
  cases hf : s.apps.find? appId with
  | none =>
    by_cases h : a = appId ∧ i = serviceId
    · simp [h, view_none hf]
    · simp [h]
  | some app =>
    have hid := mem_find? hf
    simp only
    rw [view_putApp]
    by_cases ha : a = appId
    · subst ha
      rw [if_pos hid.symm, view_eq hf, findService_updateFirst _ _ _ (setState state) (fun _ => rfl)]
      simp
    · rw [if_neg (by rw [hid]; exact ha)]
      simp [ha]

theorem distinct_update {s : DeviceState} (h : Distinct s) (appId serviceId : ℕ)
    (state : Lifecycle) : Distinct (updateServiceState s appId serviceId state) := by
  unfold updateServiceState
  cases hf : s.apps.find? appId with
  | none => exact h
  | some app =>
    apply distinct_putApp h
    show ((updateFirst serviceId (setState state) app.services).map _).Nodup
    rw [map_id_updateFirst _ _ (setState state) (fun _ => rfl)]
    exact h appId app hf

def started (service : ContainerService) (containerId : String) : ContainerService :=
  { service with containerId := some containerId, status := some "running" }

theorem view_add (s : DeviceState) (appId : ℕ) (service : ContainerService) (containerId : String)
    (hfree : view s appId service.serviceId = none) (a i : ℕ) :
    view (addServiceToCurrentState s appId service containerId) a i =
      if a = appId ∧ i = service.serviceId then some (started service containerId)
      else view s a i := by
  unfold addServiceToCurrentState
  simp only
  rw [view_putApp]
  cases hf : s.apps.find? appId with
  | none =>
    by_cases ha : a = appId
    · subst ha
      by_cases hi : i = service.serviceId
      · simp [findService, hi, started]
      · have hne : service.serviceId ≠ i := Ne.symm hi
        simp [findService, hi, hne, view_none hf]
    · simp [ha]
  | some app =>
    have hid := mem_find? hf
    by_cases ha : a = appId
    · subst ha
      rw [view_eq hf] at hfree
      have happ : (Option.getD (some app) (⟨a,service.appName,none,[]⟩ : DeviceApp)) = app := rfl
      simp only [happ, hid, if_true, true_and]
      rw [view_eq hf]
      unfold findService at *
      rw [List.find?_append]
      by_cases hi : i = service.serviceId
      · subst hi
        rw [hfree]
        simp [started]
      · have hne : service.serviceId ≠ i := Ne.symm hi
        simp [hi, hne]
    · have hne : a ≠ app.appId := by rw [hid]; exact ha
      simp [ha, hne]

theorem distinct_add {s : DeviceState} (h : Distinct s) (appId : ℕ) (service : ContainerService)
    (containerId : String) (hfree : view s appId service.serviceId = none) :
    Distinct (addServiceToCurrentState s appId service containerId) := by
  unfold addServiceToCurrentState
  apply distinct_putApp h
  cases hf : s.apps.find? appId with
  | none => simp
  | some app =>
    rw [view_eq hf] at hfree
    have hout := findService_none_iff.mp hfree
    have hnd := h appId app hf
    show (List.map _ (app.services++[_])).Nodup
    rw [List.map_append]
    apply List.nodup_append.mpr
    refine ⟨hnd,by simp,?_⟩
    intro x hx y hy hxy
    apply hout
    have hy' : y = service.serviceId := by simpa using hy
    rw [← hy', ← hxy]
    exact hx

end Iotistica.ContainerState
