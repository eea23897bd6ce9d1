import Iotistica.ContainerCells
import Iotistica.ContainerComparison
import Iotistica.DockerContainer

/-!
# Services that are what their target asks for

A service read back from Docker may agree with its target in every setting
and in its state. The planner leaves it alone only if the lists also repeat
their entries equally often and the container has not exited: an exited
container is replaced and started, also where the target wants it stopped.
-/

set_option autoImplicit false

namespace Iotistica.SatisfiedServices
open Iotistica Iotistica.JsText Iotistica.ContainerState Iotistica.ContainerPlanner
  Iotistica.ContainerCells Iotistica.ContainerComparison Iotistica.DockerContainer

def SameSet (xs ys : Option (List String)) : Prop := ∀ x, x ∈ xs.getD [] ↔ x ∈ ys.getD []

def SameCounts (xs ys : Option (List String)) : Prop := (xs.getD []).Perm (ys.getD [])

structure Satisfied (current target : ContainerService) : Prop where
  image : current.imageName = target.imageName
  ports : SameSet current.config.ports target.config.ports
  volumes : SameSet current.config.volumes target.config.volumes
  networks : SameSet current.config.networks target.config.networks
  environment : ∀ p ∈ (target.config.environment.getD OrderedMap.empty).entries,
    current.config.environment.bind (fun env => env.get? p.1) = some p.2
  restart : target.config.restart.isSome →
    orElse current.config.restart "no" = orElse target.config.restart "no"
  networkMode : target.config.networkMode.isSome →
    orElse current.config.networkMode "bridge" = orElse target.config.networkMode "bridge"
  state : desiredState current = desiredState target

/-- What the comparison asks for beyond that. -/
structure Unrepeated (current target : ContainerService) : Prop where
  ports : SameCounts current.config.ports target.config.ports
  volumes : SameCounts current.config.volumes target.config.volumes
  networks : SameCounts current.config.networks target.config.networks

theorem configAgrees_iff {current target : ContainerService} (h : Satisfied current target) :
    ConfigAgrees current.config target.config ↔ Unrepeated current target := by
  constructor
  · intro ha
    exact ⟨ha.ports,ha.volumes,ha.networks⟩
  · intro hu
    exact ⟨hu.ports,h.environment,hu.volumes,hu.networks,h.restart,h.networkMode⟩

theorem serviceOps_satisfied_iff (shouldRetry : String → Bool) (a i : ℕ)
    {current target : ContainerService} (h : Satisfied current target) :
    serviceOps shouldRetry a i (some current) (some target) = [] ↔
      container current = none ∨
        (containerStopped current = false ∧ Unrepeated current target) := by
  cases hc : container current with
  | none => simp [serviceOps, hc]
  | some id =>
    have hsome : (container current).isSome := by
      rw [hc]
      rfl
    rw [serviceOps_quiet_iff shouldRetry a i hsome h.state, needsUpdate_iff, configAgrees_iff h,
      and_iff_right h.image, and_comm]
    simp

def FromDocker (containers : List (ContainerSummary × Option ContainerInfo)) (s : DeviceState) :
    Prop :=
  ∀ a, ∀ app ∈ s.apps.find? a, ∀ svc ∈ app.services, ∃ i, ∃ c ∈ containers, svc = readService a i c

theorem fileContainer_fromDocker {containers : List (ContainerSummary × Option ContainerInfo)}
    {s : DeviceState} (h : FromDocker containers s) {c : ContainerSummary × Option ContainerInfo}
    (hc : c ∈ containers) : FromDocker containers (fileContainer s c) := by
  unfold fileContainer
  split
  · rename_i appId serviceId _ _
    intro a app ha svc hsvc
    change (s.apps.put _).find? a = some app at ha
    rw [KeyedRecords.find?_put] at ha
    have hkey : ((s.apps.find? appId).getD
        ⟨appId,(c.1.labels.get? "iotistic.app-name").getD "",none,[]⟩).appId = appId := by
      cases hf : s.apps.find? appId with
      | none => rfl
      | some old => exact mem_find? hf
    split at ha
    · rename_i heq
      obtain rfl : a = appId := heq.trans hkey
      obtain rfl := Option.some.inj ha
      rcases List.mem_append.mp hsvc with hold | hnew
      · cases hf : s.apps.find? a with
        | none =>
          rw [hf] at hold
          cases hold
        | some old =>
          rw [hf] at hold
          exact h a old hf svc hold
      · exact ⟨serviceId,c,hc,List.mem_singleton.mp hnew⟩
    · exact h a app ha svc hsvc
  · exact h

theorem syncStateFromDocker_fromDocker
    (containers : List (ContainerSummary × Option ContainerInfo)) :
    FromDocker containers (syncStateFromDocker containers) := by
  have hrun : ∀ rest ⊆ containers, ∀ s, FromDocker containers s →
      FromDocker containers (rest.foldl fileContainer s) := by
    intro rest
    induction rest with
    | nil => exact fun _ s h => h
    | cons c rest ih =>
      intro hsub s h
      have hc := hsub List.mem_cons_self
      exact ih (fun x hx => hsub (List.mem_cons_of_mem c hx)) _ (fileContainer_fromDocker h hc)
  refine hrun containers (List.Subset.refl _) _ ?_
  intro a app ha
  cases ha

theorem exited_of_stopped {a i : ℕ} {c : ContainerSummary × Option ContainerInfo}
    (h : desiredState (readService a i c) = .stopped) :
    containerStopped (readService a i c) = true := by
  have hstate : mapDockerStateToServiceState c.1.state = some .stopped := by
    change (mapDockerStateToServiceState c.1.state).getD .running = .stopped at h
    cases hm : mapDockerStateToServiceState c.1.state with
    | none =>
      rw [hm] at h
      cases h
    | some state =>
      rw [hm] at h
      exact congrArg some h
  have hexited : toLowerCase c.1.state = "exited" := by
    unfold mapDockerStateToServiceState at hstate
    split at hstate
    · cases hstate
    · split at hstate
      · cases hstate
      · split at hstate
        · assumption
        · cases hstate
  change decide (toLowerCase (toLowerCase c.1.state) ∈ ["exited","stopped","dead"]) = true
  rw [hexited]
  decide

/-- A service in both states, the current one read back from Docker, that is
satisfied. -/
structure Holds (containers : List (ContainerSummary × Option ContainerInfo))
    (target : DeviceState) (a i : ℕ) (currentApp targetApp : DeviceApp)
    (currentSvc targetSvc : ContainerService) : Prop where
  appRead : (syncStateFromDocker containers).apps.find? a = some currentApp
  appWanted : target.apps.find? a = some targetApp
  read : mapGet currentApp.services i = some currentSvc
  wanted : mapGet targetApp.services i = some targetSvc
  satisfied : Satisfied currentSvc targetSvc

theorem leavesAlone_iff_serviceOps (shouldRetry : String → Bool)
    {containers : List (ContainerSummary × Option ContainerInfo)} {target : DeviceState}
    {a i : ℕ} {currentApp targetApp : DeviceApp} {currentSvc targetSvc : ContainerService}
    (h : Holds containers target a i currentApp targetApp currentSvc targetSvc) :
    LeavesAlone (planStepsToUpdateApp shouldRetry currentApp targetApp) a i ↔
      serviceOps shouldRetry a i (some currentSvc) (some targetSvc) = [] := by
  rw [leavesAlone_iff, filter_update_mapGet shouldRetry (mem_find? h.appRead)
    (mem_find? h.appWanted), h.read, h.wanted]

/-- A satisfied service gets no step exactly if its container has not exited
and its lists repeat what the lists of the target repeat. -/
theorem satisfied_left_alone_iff (shouldRetry : String → Bool)
    (containers : List (ContainerSummary × Option ContainerInfo)) (target : DeviceState)
    (a i : ℕ) (currentApp targetApp : DeviceApp) (currentSvc targetSvc : ContainerService)
    (h : Holds containers target a i currentApp targetApp currentSvc targetSvc) :
    LeavesAlone (planStepsToUpdateApp shouldRetry currentApp targetApp) a i ↔
      container currentSvc = none ∨
        (containerStopped currentSvc = false ∧ Unrepeated currentSvc targetSvc) := by
  rw [leavesAlone_iff_serviceOps shouldRetry h]
  exact serviceOps_satisfied_iff shouldRetry a i h.satisfied

/-- A service that its target wants stopped, and whose container has exited,
is never left alone. -/
theorem stopped_replaced (shouldRetry : String → Bool)
    {containers : List (ContainerSummary × Option ContainerInfo)} {target : DeviceState}
    {a i : ℕ} {currentApp targetApp : DeviceApp} {currentSvc targetSvc : ContainerService}
    (h : Holds containers target a i currentApp targetApp currentSvc targetSvc)
    (hstopped : desiredState targetSvc = .stopped) (hid : (container currentSvc).isSome) :
    ¬LeavesAlone (planStepsToUpdateApp shouldRetry currentApp targetApp) a i := by
  have hmem : currentSvc ∈ currentApp.services :=
    List.mem_reverse.mp (findService_mem h.read)
  obtain ⟨j,c,-,rfl⟩ := syncStateFromDocker_fromDocker containers a currentApp h.appRead
    currentSvc hmem
  have hexited := exited_of_stopped (h.satisfied.state.trans hstopped)
  rw [leavesAlone_iff_serviceOps shouldRetry h]
  intro hnil
  rcases (serviceOps_satisfied_iff shouldRetry a i h.satisfied).mp hnil with hnone | ⟨hrun,-⟩
  · rw [hnone] at hid
    cases hid
  · rw [hexited] at hrun
    cases hrun

def exitedWeb : ContainerSummary × Option ContainerInfo :=
  (⟨"c0de","web:1","exited",[],⟨[("iotistic.app-id","1"),("iotistic.service-id","2")],by decide⟩⟩,
    none)

def runningWeb : ContainerSummary × Option ContainerInfo :=
  ({ exitedWeb.1 with state := "running" },none)

def wantedWeb (state : Lifecycle) : ContainerService :=
  ⟨2,"web","web:1",1,"shop",some state,{},none,none,none,none⟩

def webApp (state : Lifecycle) : DeviceApp where
  appId := 1
  appName := "shop"
  services := [wantedWeb state]

def web (state : Lifecycle) : DeviceState := ⟨KeyedRecords.empty.put (webApp state)⟩

def readWeb (c : ContainerSummary × Option ContainerInfo) : DeviceApp :=
  ⟨1,"",none,[readService 1 2 c]⟩

theorem satisfied_running : Satisfied (readService 1 2 runningWeb) (wantedWeb .running) where
  image := rfl
  ports := fun _ => Iff.rfl
  volumes := fun _ => Iff.rfl
  networks := fun _ => Iff.rfl
  environment := nofun
  restart := nofun
  networkMode := nofun
  state := by decide

theorem running_web_left_alone :
    LeavesAlone (planStepsToUpdateApp (fun _ => true) (readWeb runningWeb) (webApp .running)) 1 2 :=
  (satisfied_left_alone_iff (fun _ => true) [runningWeb] (web .running) 1 2 (readWeb runningWeb)
    (webApp .running) (readService 1 2 runningWeb) (wantedWeb .running)
    ⟨by rfl,by rfl,by rfl,by rfl,satisfied_running⟩).mpr
      (Or.inr ⟨by decide,⟨List.Perm.refl _,List.Perm.refl _,List.Perm.refl _⟩⟩)

/-- The service is to be stopped and its container has exited; it is removed,
and a new one started. -/
theorem exited_web_started :
    ¬∀ (shouldRetry : String → Bool)
      (containers : List (ContainerSummary × Option ContainerInfo)) (target : DeviceState)
      (a i : ℕ) (currentApp targetApp : DeviceApp) (currentSvc targetSvc : ContainerService),
      Holds containers target a i currentApp targetApp currentSvc targetSvc →
      LeavesAlone (planStepsToUpdateApp shouldRetry currentApp targetApp) a i := by
  intro hclaim
  have hplan : planStepsToUpdateApp (fun _ => true) (readWeb exitedWeb) (webApp .stopped) =
      [.stopContainer 1 2 "c0de",.removeContainer 1 2 "c0de",
        .startContainer 1 (wantedWeb .stopped)] := by
    decide +kernel
  have hsatisfied : Satisfied (readService 1 2 exitedWeb) (wantedWeb .stopped) :=
    ⟨rfl,fun _ => Iff.rfl,fun _ => Iff.rfl,fun _ => Iff.rfl,nofun,nofun,nofun,by decide⟩
  have halone := hclaim (fun _ => true) [exitedWeb] (web .stopped) 1 2 (readWeb exitedWeb)
    (webApp .stopped) (readService 1 2 exitedWeb) (wantedWeb .stopped)
    ⟨by rfl,by rfl,by rfl,by rfl,hsatisfied⟩
  rw [hplan] at halone
  exact halone (.startContainer 1 (wantedWeb .stopped)) (by simp) rfl

theorem exited_web_replaced :
    ¬LeavesAlone (planStepsToUpdateApp (fun _ => true) (readWeb exitedWeb) (webApp .stopped)) 1 2 :=
  have h : Holds [exitedWeb] (web .stopped) 1 2 (readWeb exitedWeb) (webApp .stopped)
      (readService 1 2 exitedWeb) (wantedWeb .stopped) :=
    ⟨by rfl,by rfl,by rfl,by rfl,rfl,fun _ => Iff.rfl,fun _ => Iff.rfl,fun _ => Iff.rfl,nofun,nofun,
      nofun,by decide⟩
  stopped_replaced (fun _ => true) h (by decide) (by decide)

end Iotistica.SatisfiedServices
