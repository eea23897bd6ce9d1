import Iotistica.JsNumerals
import Iotistica.ContainerPlanner

/-!
# Containers as Docker gets them and as they are read back

`startContainer` turns a service into create options and connects the
container to its networks; `syncStateFromDocker` builds the current state
from what Docker lists. Between the two stands Docker: it repeats image,
labels, environment, restart policy and network mode, lists one port pair
for each binding, one mount for each bind and the networks the container is
on. The exposed ports are the keys of the bindings and are left out.
-/

set_option autoImplicit false

namespace Iotistica.DockerContainer
open Iotistica Iotistica.JsText Iotistica.JsNumerals Iotistica.ContainerState
  Iotistica.ContainerPlanner

def sanitizeNamePart (s : String) : String :=
  String.ofList (s.toList.flatMap (fun c =>
    if c.isAlphanum || c == '_' || c == '.' || c == '-' then [c]
    else List.replicate (JsSort.codeUnits c).length '_'))

def securityViolations (config : ServiceConfig) : List String :=
  (if config.privileged then ["privileged=true (grants full root access to host)"] else [])++
  (if config.capAdd.isEmpty then []
    else ["cap_add="++join config.capAdd ','++" (capability additions blocked)"])++
  (if config.pidMode = some "host" then ["pid=host (exposes all host processes)"] else [])++
  (if config.ipcMode = some "host" then ["ipc=host (exposes host IPC namespace)"] else [])++
  (if config.usernsMode = some "host" then ["userns=host (bypasses user namespace isolation)"]
    else [])

def validateSecurityConfig (service : ContainerService) : Except String Unit :=
  let violations := securityViolations service.config
  if violations.isEmpty then .ok ()
  else .error ("Security policy violation: "++String.intercalate ", " violations++
    ". Edge devices cannot run containers with elevated privileges due to Docker socket access.")

def portEntry (portMapping : String) : Option (String × String) :=
  match split portMapping ':' with
  | hostPort::containerPort::_ =>
    if hostPort = "" ∨ containerPort = "" then none else some (containerPort++"/tcp",hostPort)
  | _ => none

def portBindings (ports : List String) : OrderedMap String String :=
  OrderedMap.empty.assignAll (ports.filterMap portEntry)

def networkModeOf (config : ServiceConfig) : String := orElse config.networkMode "bridge"

def ignoresPorts (networkMode : String) : Bool :=
  networkMode == "host" || startsWith networkMode "container:"

def labelsOf (service : ContainerService) : OrderedMap String String :=
  (OrderedMap.empty.assignAll
    [("iotistic.app-id",service.appId.repr),("iotistic.app-name",service.appName),
      ("iotistic.service-id",service.serviceId.repr),
      ("iotistic.service-name",service.serviceName)]).assignAll
    ((service.config.labels.map OrderedMap.entries).getD [])

def dockerNetworkName (appId : ℕ) (networkName : String) : String := appId.repr++"_"++networkName

structure CreateOptions where
  name : String
  image : String
  env : List String
  portBindings : OrderedMap String String
  binds : List String
  networkMode : String
  restartPolicy : String
  labels : OrderedMap String String

structure Created where
  options : CreateOptions
  connected : List String

def containerName (service : ContainerService) : String :=
  sanitizeNamePart service.appName++"_"++sanitizeNamePart service.serviceName++"_"++
    service.serviceId.repr

def createOptions (service : ContainerService) : CreateOptions where
  name := containerName service
  image := service.imageName
  env := ((service.config.environment.map OrderedMap.entries).getD []).map
    (fun e => e.1++String.singleton '='++e.2)
  portBindings :=
    if ignoresPorts (networkModeOf service.config) then OrderedMap.empty
    else portBindings (service.config.ports.getD [])
  binds := service.config.volumes.getD []
  networkMode := networkModeOf service.config
  restartPolicy := orElse service.config.restart "unless-stopped"
  labels := labelsOf service

structure ExistingContainer where
  id : String
  names : List String
  running : Bool

def findContainerByName (containers : List ExistingContainer) (name : String) :
    Option ExistingContainer :=
  containers.find? (fun c => c.names.contains ("/"++name))

inductive Started where
  | reused (id : String)
  | restarted (id : String)
  | created (container : Created)

/-- A container that already has the name is taken as it is, whatever it was
created from. Docker accepts the calls. -/
def startContainer (containers : List ExistingContainer) (service : ContainerService) :
    Except String Started :=
  match validateSecurityConfig service with
  | .error e => .error e
  | .ok () =>
    match findContainerByName containers (containerName service) with
    | some existing =>
      if existing.running then .ok (.reused existing.id) else .ok (.restarted existing.id)
    | none => .ok (.created ⟨createOptions service,
        (service.config.networks.getD []).map (dockerNetworkName service.appId)⟩)

/-- An absent number counts as `0`, both being falsy. -/
structure PortPair where
  publicPort : ℕ
  privatePort : ℕ

inductive MountType where
  | volume
  | bind
  | other
  deriving DecidableEq

structure Mount where
  type : MountType
  name : String
  source : String
  destination : String

structure ContainerSummary where
  id : String
  image : String
  state : String
  ports : List PortPair
  labels : OrderedMap String String

structure ContainerInfo where
  networks : List String
  env : List String
  mounts : List Mount
  restartPolicy : Option String
  networkMode : Option String
  labels : OrderedMap String String

/-- A source that is no path names a volume. -/
def mountOf (volume : String) : Mount :=
  let parts := split volume ':'
  let source := parts.headD ""
  let destination := (parts.tail).headD ""
  if startsWith volume "/" then ⟨.bind,"",source,destination⟩
  else ⟨.volume,source,"",destination⟩

/-- `number` is how Docker reads the number of a port. The network named by
the mode is listed with those connected later. -/
def inspected (number : String → ℕ) (id : String) (c : Created) :
    ContainerSummary × ContainerInfo :=
  (⟨id,c.options.image,"running",
      c.options.portBindings.entries.map
        (fun e => ⟨number e.2,number ((split e.1 '/').headD "")⟩),
      c.options.labels⟩,
    ⟨(c.options.networkMode::c.connected).eraseDups,c.options.env,c.options.binds.map mountOf,
      some c.options.restartPolicy,some c.options.networkMode,c.options.labels⟩)

def mapDockerStateToServiceState (dockerState : String) : Option Lifecycle :=
  if toLowerCase dockerState = "running" then some .running
  else if toLowerCase dockerState = "paused" then some .paused
  else if toLowerCase dockerState = "exited" then some .stopped
  else none

def readNetworks (appId : ℕ) (networks : List String) : List String :=
  (networks.filter (fun n => startsWith n (appId.repr++"_"))).map
    (fun n => removeFirst n (appId.repr++"_"))

def envEntry (envVar : String) : Option (String × String) :=
  match split envVar '=' with
  | key::valueParts => if key = "" then none else some (key,join valueParts '=')
  | [] => none

def readEnvironment (env : List String) : OrderedMap String String :=
  OrderedMap.empty.assignAll (env.filterMap envEntry)

def readMount (mount : Mount) : Option String :=
  match mount.type with
  | .volume => some (mount.name++String.singleton ':'++mount.destination)
  | .bind => some (mount.source++String.singleton ':'++mount.destination)
  | .other => none

def readPort (p : PortPair) : Option String :=
  if p.publicPort = 0 ∨ p.privatePort = 0 then none
  else some (p.publicPort.repr++String.singleton ':'++p.privatePort.repr)

def readPorts (ports : List PortPair) : List String := (ports.filterMap readPort).eraseDups

/-- The configuration of a container that could not be inspected keeps the
defaults. -/
def readConfig (appId : ℕ) (c : ContainerSummary × Option ContainerInfo) : ServiceConfig :=
  let labels := c.2.map (fun info => info.labels.filter (fun e => startsWith e.1 "iotistic."))
  { ports := some (readPorts c.1.ports)
    volumes := some ((c.2.map (fun info => info.mounts.filterMap readMount)).getD [])
    networks := some ((c.2.map (fun info => readNetworks appId info.networks)).getD [])
    environment := some ((c.2.map (fun info => readEnvironment info.env)).getD OrderedMap.empty)
    restart := some ((c.2.map (fun info => orElse info.restartPolicy "no")).getD "no")
    networkMode := some ((c.2.map (fun info => orElse info.networkMode "bridge")).getD "bridge")
    labels := labels.filter (fun m => m.size != 0) }

def readService (appId serviceId : ℕ) (c : ContainerSummary × Option ContainerInfo) :
    ContainerService where
  serviceId := serviceId
  serviceName := (c.1.labels.get? "iotistic.service-name").getD ""
  imageName := c.1.image
  appId := appId
  appName := (c.1.labels.get? "iotistic.app-name").getD ""
  state := mapDockerStateToServiceState c.1.state
  config := readConfig appId c
  containerId := some c.1.id
  status := some (toLowerCase c.1.state)

def labelId (labels : OrderedMap String String) (key : String) : Option ℕ :=
  ((labels.get? key).bind parseInt).bind (fun z => if 0 ≤ z then some z.toNat else none)

/-- A container whose labels hold no ids is filed under `NaN`, where no app
of a target is looked up; it is left out. -/
def fileContainer (s : DeviceState) (c : ContainerSummary × Option ContainerInfo) : DeviceState :=
  match labelId c.1.labels "iotistic.app-id", labelId c.1.labels "iotistic.service-id" with
  | some appId, some serviceId =>
    let app := (s.apps.find? appId).getD
      ⟨appId,(c.1.labels.get? "iotistic.app-name").getD "",none,[]⟩
    s.putApp { app with services := app.services++[readService appId serviceId c] }
  | _, _ => s

def syncStateFromDocker (containers : List (ContainerSummary × Option ContainerInfo)) :
    DeviceState :=
  containers.foldl fileContainer ⟨KeyedRecords.empty⟩

end Iotistica.DockerContainer
