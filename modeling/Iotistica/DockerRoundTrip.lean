import Iotistica.DockerReadback
import Iotistica.ContainerCells

/-!
# A started container compared with its service

The container made for a service is read back and planned against the same
service. The last theorem says for which services nothing is planned; for
all others the agent stops, removes and creates the container in every
pass.
-/

set_option autoImplicit false

namespace Iotistica.DockerRoundTrip
open Iotistica Iotistica.JsText Iotistica.JsNumerals Iotistica.CellRun Iotistica.ContainerState
  Iotistica.ContainerPlanner Iotistica.ContainerCells Iotistica.ContainerComparison
  Iotistica.DockerContainer Iotistica.DockerReadback

def readBack (number : String → ℕ) (id : String) (c : Created) : DeviceState :=
  syncStateFromDocker [((inspected number id c).1,some (inspected number id c).2)]

/-- The app as the planner gets it, without services if none is read back. -/
def currentApp (s : DeviceState) (service : ContainerService) : DeviceApp :=
  (s.apps.find? service.appId).getD ⟨service.appId,service.appName,none,[]⟩

def labelText (service : ContainerService) (key default : String) : String :=
  (service.config.labels.bind (fun labels => labels.get? key)).getD default

/-- Labels of the configuration do not move the container to other ids. -/
def KeepsIds (service : ContainerService) : Prop :=
  parseInt (labelText service "iotistic.app-id" service.appId.repr) = some (service.appId : ℤ) ∧
    parseInt (labelText service "iotistic.service-id" service.serviceId.repr) =
      some (service.serviceId : ℤ)

theorem get?_labelsOf (service : ContainerService) {key value : String}
    (h : ((OrderedMap.empty : OrderedMap String String).assignAll
      [("iotistic.app-id",service.appId.repr),("iotistic.app-name",service.appName),
        ("iotistic.service-id",service.serviceId.repr),
        ("iotistic.service-name",service.serviceName)]).get? key = some value) :
    (labelsOf service).get? key = some (labelText service key value) := by
  unfold labelsOf labelText
  cases hl : service.config.labels with
  | none => simpa [OrderedMap.assignAll] using h
  | some labels =>
    simp only [Option.map_some, Option.getD_some, Option.bind_some]
    rw [OrderedMap.get?_assignAll _ _ labels.nodup, h]
    show (labels.get? key <|> some value) = _
    cases labels.get? key <;> rfl

theorem get?_appId (service : ContainerService) :
    (labelsOf service).get? "iotistic.app-id" =
      some (labelText service "iotistic.app-id" service.appId.repr) := by
  apply get?_labelsOf
  simp [OrderedMap.assignAll, OrderedMap.get?_set]

theorem get?_serviceId (service : ContainerService) :
    (labelsOf service).get? "iotistic.service-id" =
      some (labelText service "iotistic.service-id" service.serviceId.repr) := by
  apply get?_labelsOf
  simp [OrderedMap.assignAll, OrderedMap.get?_set]

theorem labelId_iff {labels : OrderedMap String String} {key text : String}
    (h : labels.get? key = some text) (n : ℕ) :
    labelId labels key = some n ↔ parseInt text = some (n : ℤ) := by
  unfold labelId
  rw [h]
  simp only [Option.bind_some]
  cases parseInt text with
  | none => simp
  | some z =>
    simp only [Option.bind_some, Option.some.injEq]
    split
    · rw [Option.some.injEq]
      omega
    · constructor
      · intro he
        cases he
      · intro he
        omega

theorem labelId_appId (service : ContainerService) (n : ℕ) :
    labelId (labelsOf service) "iotistic.app-id" = some n ↔
      parseInt (labelText service "iotistic.app-id" service.appId.repr) = some (n : ℤ) :=
  labelId_iff (get?_appId service) n

theorem labelId_serviceId (service : ContainerService) (n : ℕ) :
    labelId (labelsOf service) "iotistic.service-id" = some n ↔
      parseInt (labelText service "iotistic.service-id" service.serviceId.repr) = some (n : ℤ) :=
  labelId_iff (get?_serviceId service) n

def listed (number : String → ℕ) (id : String) (c : Created) :
    ContainerSummary × Option ContainerInfo :=
  ((inspected number id c).1,some (inspected number id c).2)

theorem view_empty (a i : ℕ) : view ⟨KeyedRecords.empty⟩ a i = none := rfl

theorem view_readBack (number : String → ℕ) (id : String) (c : Created) (a i : ℕ) :
    view (readBack number id c) a i =
      if labelId c.options.labels "iotistic.app-id" = some a ∧
          labelId c.options.labels "iotistic.service-id" = some i then
        some (readService a i (listed number id c))
      else none := by
  show view (fileContainer ⟨KeyedRecords.empty⟩ (listed number id c)) a i = _
  unfold fileContainer
  have hlabels : (listed number id c).1.labels = c.options.labels := rfl
  rw [hlabels]
  cases ha : labelId c.options.labels "iotistic.app-id" with
  | none => simp [view_empty]
  | some b =>
    cases hi : labelId c.options.labels "iotistic.service-id" with
    | none => simp [view_empty]
    | some j =>
      simp only
      rw [view_putApp]
      show (if a = b then findService [readService b j (listed number id c)] i else _) = _
      by_cases hab : a = b
      · subst hab
        by_cases hij : i = j
        · subst hij
          simp [findService, readService]
        · have hji : j ≠ i := Ne.symm hij
          simp [findService, readService, hji]
      · have hba : b ≠ a := Ne.symm hab
        simp [hab, hba, view_empty]

theorem distinct_readBack (number : String → ℕ) (id : String) (c : Created) :
    Distinct (readBack number id c) := by
  have hempty : Distinct ⟨KeyedRecords.empty⟩ := by
    intro a app h
    cases h
  show Distinct (fileContainer ⟨KeyedRecords.empty⟩ (listed number id c))
  unfold fileContainer
  split
  · apply distinct_putApp hempty
    show (List.map _ [_]).Nodup
    simp
  · exact hempty

theorem currentApp_appId (s : DeviceState) (service : ContainerService) :
    (currentApp s service).appId = service.appId := by
  unfold currentApp
  cases hf : s.apps.find? service.appId with
  | none => rfl
  | some app => exact mem_find? hf

theorem currentApp_find (s : DeviceState) (service : ContainerService) (i : ℕ) :
    findService (currentApp s service).services i = view s service.appId i := by
  unfold currentApp
  cases hf : s.apps.find? service.appId with
  | none => rw [view_none hf]; rfl
  | some app => rw [view_eq hf]; rfl

theorem currentApp_nodup {s : DeviceState} (h : Distinct s) (service : ContainerService) :
    ((currentApp s service).services.map ContainerService.serviceId).Nodup := by
  unfold currentApp
  cases hf : s.apps.find? service.appId with
  | none => exact List.nodup_nil
  | some app => exact h service.appId app hf

/-- What a service must be like for its container to be recognised. -/
structure Survives (service : ContainerService) : Prop where
  running : desiredState service = .running
  ports : if ignoresPorts (networkModeOf service.config) then service.config.ports.getD [] = []
    else PortsSurvive (service.config.ports.getD [])
  environment : ∀ key ∈ (service.config.environment.getD OrderedMap.empty).keys, PlainKey key
  volumes : ∀ v ∈ service.config.volumes.getD [], PlainVolume v
  networks : NetworksSurvive service.appId (networkModeOf service.config)
    (service.config.networks.getD [])
  restart : service.config.restart ≠ some ""

section Comparison
variable {number : String → ℕ} (hnumber : ∀ n : ℕ, number n.repr = n) (id : String)
  (service : ContainerService)

def createdFor (service : ContainerService) : Created :=
  ⟨createOptions service,(service.config.networks.getD []).map (dockerNetworkName service.appId)⟩

def readFor (number : String → ℕ) (id : String) (service : ContainerService) : ContainerService :=
  readService service.appId service.serviceId (listed number id (createdFor service))

include hnumber in
theorem ports_agree_iff :
    ((readFor number id service).config.ports.getD []).Perm (service.config.ports.getD []) ↔
      if ignoresPorts (networkModeOf service.config) then service.config.ports.getD [] = []
      else PortsSurvive (service.config.ports.getD []) := by
  show (readPorts ((createOptions service).portBindings.entries.map (pairOf number))).Perm _ ↔ _
  unfold createOptions
  by_cases h : ignoresPorts (networkModeOf service.config) = true
  · simp only [h, if_true]
    exact List.nil_perm
  · simp only [h]
    exact readPorts_iff hnumber _

theorem environment_agrees_iff :
    (∀ p ∈ (service.config.environment.getD OrderedMap.empty).entries,
      (readFor number id service).config.environment.bind (fun env => env.get? p.1) =
        some p.2) ↔
      ∀ key ∈ (service.config.environment.getD OrderedMap.empty).keys, PlainKey key := by
  cases he : service.config.environment with
  | none =>
    constructor
    · intro _ key hkey
      cases hkey
    · intro _ p hp
      cases hp
  | some env =>
    have hread : (readFor number id service).config.environment =
        some (readEnvironment (env.entries.map envText)) := by
      show some (readEnvironment (createOptions service).env) = _
      unfold createOptions
      rw [he]
      rfl
    rw [hread]
    exact readEnvironment_iff env

theorem restart_agrees_iff :
    (service.config.restart.isSome →
      orElse (readFor number id service).config.restart "no" =
        orElse service.config.restart "no") ↔ service.config.restart ≠ some "" := by
  show (_ → orElse (some (orElse (some (orElse service.config.restart "unless-stopped")) "no"))
    "no" = _) ↔ _
  cases service.config.restart with
  | none => simp
  | some r =>
    by_cases hr : r = ""
    · simp [hr, orElse]
    · simp [hr, orElse]

theorem networkMode_agrees :
    orElse (readFor number id service).config.networkMode "bridge" =
      orElse service.config.networkMode "bridge" := by
  show orElse (some (orElse (some (networkModeOf service.config)) "bridge")) "bridge" = _
  unfold networkModeOf
  cases service.config.networkMode with
  | none => simp [orElse]
  | some m =>
    by_cases hm : m = ""
    · simp [hm, orElse]
    · simp [hm, orElse]

include hnumber in
theorem needsUpdate_readFor_iff (hrun : desiredState service = .running) :
    needsUpdate (readFor number id service) service = false ↔ Survives service := by
  have hstopped : containerStopped (readFor number id service) = false := by
    apply containerStopped_running
    show some (toLowerCase "running") = some "running"
    rfl
  have hnetworks : ((readFor number id service).config.networks.getD []).Perm
      (service.config.networks.getD []) ↔ _ :=
    readNetworks_iff service.appId (networkModeOf service.config) (service.config.networks.getD [])
  have hvolumes : ((readFor number id service).config.volumes.getD []).Perm
      (service.config.volumes.getD []) ↔ _ := readMounts_iff (service.config.volumes.getD [])
  rw [needsUpdate_iff]
  constructor
  · intro h
    exact ⟨hrun,(ports_agree_iff hnumber id service).mp h.2.1.ports,
      (environment_agrees_iff id service).mp h.2.1.environment,hvolumes.mp h.2.1.volumes,
      hnetworks.mp h.2.1.networks,(restart_agrees_iff id service).mp h.2.1.restart⟩
  · intro h
    exact ⟨rfl,⟨(ports_agree_iff hnumber id service).mpr h.ports,
      (environment_agrees_iff id service).mpr h.environment,hvolumes.mpr h.volumes,
      hnetworks.mpr h.networks,(restart_agrees_iff id service).mpr h.restart,
      fun _ => networkMode_agrees id service⟩,hstopped⟩

end Comparison

theorem startContainer_created {containers : List ExistingContainer} {service : ContainerService}
    {created : Created} (h : startContainer containers service = .ok (.created created)) :
    created = createdFor service := by
  unfold startContainer at h
  split at h
  · cases h
  · split at h
    · split at h <;> cases h
    · exact (Started.created.inj (Except.ok.inj h)).symm

theorem view_created (number : String → ℕ) (id : String) (service : ContainerService) :
    (KeepsIds service → view (readBack number id (createdFor service)) service.appId
        service.serviceId = some (readFor number id service)) ∧
      (¬KeepsIds service → view (readBack number id (createdFor service)) service.appId
        service.serviceId = none) := by
  have hids : labelId (createdFor service).options.labels "iotistic.app-id" =
        some service.appId ∧
      labelId (createdFor service).options.labels "iotistic.service-id" =
        some service.serviceId ↔ KeepsIds service :=
    and_congr (labelId_appId service service.appId) (labelId_serviceId service service.serviceId)
  rw [view_readBack]
  constructor
  · intro h
    rw [if_pos (hids.mpr h)]
    rfl
  · intro h
    rw [if_neg (fun hk => h (hids.mp hk))]

theorem readFor_container {number : String → ℕ} {id : String} (hid : id ≠ "")
    (service : ContainerService) : container (readFor number id service) = some id := by
  show Option.filter _ (some id) = some id
  simp [hid]

theorem readFor_state (number : String → ℕ) (id : String) (service : ContainerService) :
    desiredState (readFor number id service) = .running := by
  have hdocker : (listed number id (createdFor service)).1.state = "running" := rfl
  have hstate : (readFor number id service).state = mapDockerStateToServiceState "running" := by
    rw [← hdocker]
    rfl
  have hmap : mapDockerStateToServiceState "running" = some .running := by decide
  unfold desiredState
  rw [hstate, hmap]
  rfl

theorem transitionSteps_ne_nil (a i : ℕ) (id : String) {x y : Lifecycle} (h : x ≠ y) :
    transitionSteps a i id x y ≠ [] := by
  cases x <;> cases y <;> simp_all [transitionSteps]

/-- Nothing is planned for the container made for a service exactly if all
its fields survive, or if its labels hide it and it is not to run. -/
theorem round_trip_quiet_iff (number : String → ℕ) (hnumber : ∀ n : ℕ, number n.repr = n)
    (id : String) (hid : id ≠ "") (containers : List ExistingContainer)
    (service : ContainerService) (created : Created)
    (hstart : startContainer containers service = .ok (.created created)) (targetApp : DeviceApp)
    (happ : targetApp.appId = service.appId) (hmem : service ∈ targetApp.services)
    (hn : (targetApp.services.map ContainerService.serviceId).Nodup) :
    LeavesAlone (planStepsToUpdateApp (fun _ => true)
        (currentApp (readBack number id created) service) targetApp)
        service.appId service.serviceId ↔
      (KeepsIds service ∧ Survives service) ∨
        (¬KeepsIds service ∧ desiredState service ≠ .running) := by
  rw [startContainer_created hstart, leavesAlone_iff,
    filter_planStepsToUpdateApp _ (currentApp_appId _ service) happ
      (currentApp_nodup (distinct_readBack _ _ _) service) hn,
    currentApp_find, findService_of_mem hn hmem]
  have hview := view_created number id service
  by_cases hk : KeepsIds service
  · rw [hview.1 hk]
    by_cases hrun : desiredState service = .running
    · have hcont : (container (readFor number id service)).isSome := by
        rw [readFor_container hid]
        rfl
      rw [serviceOps_quiet_iff _ _ _ hcont ((readFor_state number id service).trans hrun.symm),
        needsUpdate_readFor_iff hnumber id service hrun]
      simp [hk]
    · have hne : Lifecycle.running ≠ desiredState service := Ne.symm hrun
      have hnot : ¬Survives service := fun h => hrun h.running
      simp only [serviceOps, readFor_container hid, readFor_state, hne, if_false, hk, hnot]
      simp [transitionSteps_ne_nil service.appId service.serviceId id hne]
  · rw [hview.2 hk]
    by_cases hrun : desiredState service = .running
    · simp [serviceOps, hk, hrun]
    · simp [serviceOps, hk, hrun]

/-- A reading of ports that gives every decimal numeral its value. -/
def portNumber (s : String) : ℕ := ((parseInt s).getD 0).toNat

theorem portNumber_repr (n : ℕ) : portNumber n.repr = n := by
  unfold portNumber
  rw [parseInt_repr]
  rfl

def webService (config : ServiceConfig) : ContainerService where
  serviceId := 2
  serviceName := "web"
  imageName := "web:1"
  appId := 1
  appName := "shop"
  config := config

def webApp (config : ServiceConfig) : DeviceApp := ⟨1,"shop",none,[webService config]⟩

theorem round_trip_quiet_bound_port :
    LeavesAlone (planStepsToUpdateApp (fun _ => true)
        (currentApp (readBack portNumber "c0de"
          (createdFor (webService { ports := some [portText 8080 80] })))
          (webService { ports := some [portText 8080 80] }))
        (webApp { ports := some [portText 8080 80] })) 1 2 := by
  have h := round_trip_quiet_iff portNumber portNumber_repr "c0de" (by decide) []
    (webService { ports := some [portText 8080 80] }) _ rfl
    (webApp { ports := some [portText 8080 80] }) rfl (by simp [webApp]) (by simp [webApp])
  apply h.mpr
  refine Or.inl ⟨⟨parseInt_repr 1,parseInt_repr 2⟩,rfl,?_,?_,?_,?_,?_⟩
  · have hports : ignoresPorts (networkModeOf (webService
        { ports := some [portText 8080 80] }).config) = false := by decide
    rw [hports]
    refine ⟨?_,by simp [webService]⟩
    intro p hp
    have hp' : p = portText 8080 80 := by simpa [webService] using hp
    exact ⟨8080,80,by omega,by omega,hp'⟩
  · intro key hkey
    cases hkey
  · intro v hv
    cases hv
  · refine ⟨List.nodup_nil,?_⟩
    intro n hn
    have hpre := startsWith_append (Nat.repr 1++"_") n
    have hbridge : Nat.repr 1++"_"++n = "bridge" := hn
    rw [hbridge] at hpre
    exact absurd hpre (by decide)
  · decide

/-- The second host port overwrites the first, so the container is created
anew in every pass. -/
theorem two_host_ports_recreated_by_every_pass :
    startContainer [] (webService { ports := some ["8080:80","8081:80"] }) =
        .ok (.created (createdFor (webService { ports := some ["8080:80","8081:80"] }))) ∧
      ¬LeavesAlone (planStepsToUpdateApp (fun _ => true)
        (currentApp (readBack portNumber "c0de"
          (createdFor (webService { ports := some ["8080:80","8081:80"] })))
          (webService { ports := some ["8080:80","8081:80"] }))
        (webApp { ports := some ["8080:80","8081:80"] })) 1 2 := by
  have hplan : planStepsToUpdateApp (fun _ => true)
        (currentApp (readBack portNumber "c0de"
          (createdFor (webService { ports := some ["8080:80","8081:80"] })))
          (webService { ports := some ["8080:80","8081:80"] }))
        (webApp { ports := some ["8080:80","8081:80"] }) =
      [.stopContainer 1 2 "c0de",.removeContainer 1 2 "c0de",
        .startContainer 1 (webService { ports := some ["8080:80","8081:80"] })] := by
    decide +kernel
  refine ⟨rfl,?_⟩
  rw [hplan]
  intro h
  exact h (.stopContainer 1 2 "c0de") (by simp) rfl

end Iotistica.DockerRoundTrip
