import Iotistica.JsText
import Iotistica.JsSort
import Iotistica.CellRun
import Iotistica.ContainerState

/-!
# Planning the steps from the current to the target state

Per app the plan creates volumes and networks, moves the containers and
removes what no service names any more. Two lists of a configuration are
compared in sorted form, environments on the target's variables only. The
comparison sorts the lists in place, which no later comparison can see.
-/

set_option autoImplicit false

namespace Iotistica.ContainerPlanner
open Iotistica Iotistica.JsText Iotistica.CellRun Iotistica.ContainerState

inductive Step where
  | downloadImage (appId : ℕ) (imageName : String)
  | createVolume (appId : ℕ) (volumeName : String)
  | createNetwork (appId : ℕ) (networkName : String)
  | stopContainer (appId serviceId : ℕ) (containerId : String)
  | pauseContainer (appId serviceId : ℕ) (containerId : String)
  | unpauseContainer (appId serviceId : ℕ) (containerId : String)
  | startStoppedContainer (appId serviceId : ℕ) (containerId : String)
  | removeContainer (appId serviceId : ℕ) (containerId : String)
  | startContainer (appId : ℕ) (service : ContainerService)
  | removeNetwork (appId : ℕ) (networkName : String)
  | removeVolume (appId : ℕ) (volumeName : String)
  | noop
  deriving DecidableEq

def Step.subject : Step → Option (ℕ × ℕ)
  | .stopContainer a i _ => some (a,i)
  | .pauseContainer a i _ => some (a,i)
  | .unpauseContainer a i _ => some (a,i)
  | .startStoppedContainer a i _ => some (a,i)
  | .removeContainer a i _ => some (a,i)
  | .startContainer a service => some (a,service.serviceId)
  | _ => none

def networksOf (service : ContainerService) : List String :=
  (service.config.networks <|> service.networks).getD []

def volumeName (volume : String) : String := ((split volume ':').head?).getD ""

def namedVolumesOf (service : ContainerService) : List String :=
  (((service.config.volumes <|> service.volumes).getD []).filter
    (fun v => !startsWith v "/")).map volumeName

def servicesOf (app : Option DeviceApp) : List ContainerService :=
  (app.map DeviceApp.services).getD []

def namesOf (f : ContainerService → List String) (app : Option DeviceApp) : List String :=
  ((servicesOf app).flatMap f).eraseDups

def reconcileNamesForApp (f : ContainerService → List String) (create remove : String → Step)
    (currentApp targetApp : Option DeviceApp) : List Step :=
  ((namesOf f targetApp).filter (fun n => n ∉ namesOf f currentApp)).map create++
    ((namesOf f currentApp).filter (fun n => n ∉ namesOf f targetApp)).map remove

def reconcileNetworksForApp (appId : ℕ) : Option DeviceApp → Option DeviceApp → List Step :=
  reconcileNamesForApp networksOf (.createNetwork appId) (.removeNetwork appId)

def reconcileVolumesForApp (appId : ℕ) : Option DeviceApp → Option DeviceApp → List Step :=
  reconcileNamesForApp namedVolumesOf (.createVolume appId) (.removeVolume appId)

def desiredState (service : ContainerService) : Lifecycle := service.state.getD .running

def container (service : ContainerService) : Option String :=
  service.containerId.filter (fun id => id != "")

def listChanged (current target : Option (List String)) : Bool :=
  JsSort.sort (current.getD []) != JsSort.sort (target.getD [])

def envChanged (current target : Option (OrderedMap String String)) : Bool :=
  let targetEnv := target.getD OrderedMap.empty
  let filteredCurrentEnv := targetEnv.keys.filterMap
    (fun key => (current.bind (fun env => env.get? key)).map (fun value => (key,value)))
  filteredCurrentEnv != targetEnv.entries

/-- An unset target accepts whatever the container has. -/
def settingChanged (default : String) (current target : Option String) : Bool :=
  target.isSome && orElse current default != orElse target default

def imageChanged (current target : ContainerService) : Bool :=
  current.imageName != target.imageName

def configChanged (current target : ServiceConfig) : Bool :=
  listChanged current.ports target.ports ||
  envChanged current.environment target.environment ||
  listChanged current.volumes target.volumes ||
  listChanged current.networks target.networks ||
  settingChanged "no" current.restart target.restart ||
  settingChanged "bridge" current.networkMode target.networkMode

def containerStopped (current : ContainerService) : Bool :=
  match current.status with
  | some status => toLowerCase status ∈ ["exited","stopped","dead"]
  | none => false

def needsUpdate (current target : ContainerService) : Bool :=
  imageChanged current target || configChanged current.config target.config ||
    containerStopped current

def imageKey (imageName : String) : String := "image:"++imageName

def removeSteps (appId serviceId : ℕ) (service : ContainerService) : List Step :=
  match container service with
  | some id => [.stopContainer appId serviceId id,.removeContainer appId serviceId id]
  | none => []

def addSteps (appId : ℕ) (service : ContainerService) : List Step :=
  if desiredState service = .running then
    [.downloadImage appId service.imageName,.startContainer appId service]
  else []

/-- A paused container is resumed before it is stopped, a stopped one is
created anew before it is paused. -/
def transitionSteps (appId serviceId : ℕ) (containerId : String) : Lifecycle → Lifecycle → List Step
  | .running, .stopped => [.stopContainer appId serviceId containerId]
  | .running, .paused => [.pauseContainer appId serviceId containerId]
  | .stopped, .running => [.startStoppedContainer appId serviceId containerId]
  | .paused, .running => [.unpauseContainer appId serviceId containerId]
  | .paused, .stopped =>
    [.unpauseContainer appId serviceId containerId,.stopContainer appId serviceId containerId]
  | .stopped, .paused =>
    [.startStoppedContainer appId serviceId containerId,.pauseContainer appId serviceId containerId]
  | .running, .running => []
  | .stopped, .stopped => []
  | .paused, .paused => []

def updateSteps (currentAppId targetAppId serviceId : ℕ) (containerId : String)
    (current target : ContainerService) : List Step :=
  if needsUpdate current target then
    (if imageChanged current target then [.downloadImage targetAppId target.imageName] else [])++
      [.stopContainer currentAppId serviceId containerId,
        .removeContainer currentAppId serviceId containerId,
        .startContainer targetAppId target]
  else []

def planStepsToRemoveApp (app : DeviceApp) : List Step :=
  app.services.flatMap (fun service => removeSteps app.appId service.serviceId service)

def planStepsToAddApp (app : DeviceApp) : List Step :=
  app.services.flatMap (addSteps app.appId)

/-- `Map.get` on a map built from a list: the last entry of an id counts. -/
def mapGet (services : List ContainerService) (serviceId : ℕ) : Option ContainerService :=
  findService services.reverse serviceId

/-- Without a container id neither branch of a service in both states
pushes a step. -/
def serviceSteps (shouldRetry : String → Bool) (currentAppId targetAppId serviceId : ℕ) :
    Option ContainerService → Option ContainerService → List Step
  | none, none => []
  | some currentSvc, none => removeSteps currentAppId serviceId currentSvc
  | none, some targetSvc =>
    if shouldRetry (imageKey targetSvc.imageName) then addSteps targetAppId targetSvc else []
  | some currentSvc, some targetSvc =>
    match container currentSvc with
    | none => []
    | some id =>
      if desiredState currentSvc = desiredState targetSvc then
        updateSteps currentAppId targetAppId serviceId id currentSvc targetSvc
      else
        transitionSteps currentAppId serviceId id (desiredState currentSvc) (desiredState targetSvc)

def planStepsToUpdateApp (shouldRetry : String → Bool) (current target : DeviceApp) : List Step :=
  let allServiceIds := (current.services.map ContainerService.serviceId++
    target.services.map ContainerService.serviceId).eraseDups
  allServiceIds.flatMap (fun id => serviceSteps shouldRetry current.appId target.appId id
    (mapGet current.services id) (mapGet target.services id))

def containerSteps (shouldRetry : String → Bool) :
    Option DeviceApp → Option DeviceApp → List Step
  | some currentApp, none => planStepsToRemoveApp currentApp
  | none, some targetApp => planStepsToAddApp targetApp
  | some currentApp, some targetApp => planStepsToUpdateApp shouldRetry currentApp targetApp
  | none, none => []

def Step.isCreate : Step → Bool
  | .createVolume _ _ => true
  | .createNetwork _ _ => true
  | _ => false

def Step.isRemove : Step → Bool
  | .removeVolume _ _ => true
  | .removeNetwork _ _ => true
  | _ => false

def appSteps (shouldRetry : String → Bool) (appId : ℕ) (currentApp targetApp : Option DeviceApp) :
    List Step :=
  (reconcileVolumesForApp appId currentApp targetApp).filter Step.isCreate++
  (reconcileNetworksForApp appId currentApp targetApp).filter Step.isCreate++
  containerSteps shouldRetry currentApp targetApp++
  (reconcileNetworksForApp appId currentApp targetApp).filter Step.isRemove++
  (reconcileVolumesForApp appId currentApp targetApp).filter Step.isRemove

def calculateSteps (shouldRetry : String → Bool) (current target : DeviceState) : List Step :=
  let allAppIds := (current.apps.keys++target.apps.keys).eraseDups
  allAppIds.flatMap
    (fun appId => appSteps shouldRetry appId (current.apps.find? appId) (target.apps.find? appId))

end Iotistica.ContainerPlanner
