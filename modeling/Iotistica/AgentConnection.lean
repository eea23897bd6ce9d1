import Iotistica.GuardedRun

/-!
# The connection of an agent

One client at a time has listeners, and its events, a reconnect timer, a
timeout and the continuations of the connection promises decide when another
one is created. Each of them runs to its end before the next. A client that
has failed or was ended emits close unless its listeners are removed.
-/

set_option autoImplicit false

namespace Iotistica.AgentConnection

def publishFailureThreshold : ℕ := 3

/-- The client, the attempt it was created for, and whether it will emit
close or has done so. -/
structure Client where
  attempt : ℕ
  brokerUrl : String
  closeOwed : Bool
  closed : Bool
  deriving DecidableEq

/-- What waits for an attempt to be settled: the catch of a reconnect, and
the finally of a timer that found the attempt in progress. -/
inductive Task where
  | caught (attempt : ℕ) (brokerUrl : String)
  | joined (attempt : ℕ) (brokerUrl : String)
  deriving DecidableEq

/-- `outcome` says whether an attempt was resolved or rejected. `suspended`
are the calls of connect that enable the buffer first, `ending` counts the
calls of disconnect that wait for their client. The rest is for the
statements: `disconnectCalled`, `stopped` between the end of a disconnect and
the next call, `stuck` from the failure that reaches the threshold to a
success or the next attempt, `restarts` for each time the timer fires while
stuck and `starts` for each attempt. -/
structure State where
  client : Option Client
  connected : Bool
  connectionPromise : Option ℕ
  reconnectTimer : Option String
  consecutivePublishFailures : ℕ
  lastBrokerUrl : Option String
  outcome : ℕ → Option Bool
  timeouts : List ℕ
  nextAttempt : ℕ
  tasks : List Task
  suspended : List String
  ending : ℕ
  disconnectCalled : Bool
  stopped : Bool
  stuck : Bool
  restarts : List Bool
  starts : List Bool

def started : State where
  client := none
  connected := false
  connectionPromise := none
  reconnectTimer := none
  consecutivePublishFailures := 0
  lastBrokerUrl := none
  outcome := fun _ => none
  timeouts := []
  nextAttempt := 0
  tasks := []
  suspended := []
  ending := 0
  disconnectCalled := false
  stopped := false
  stuck := false
  restarts := []
  starts := []

def isConnected (s : State) : Bool := s.connected && s.client.isSome

/-- An empty URL counts as none. -/
def urlKnown (s : State) : Bool :=
  match s.lastBrokerUrl with
  | some url => url ≠ ""
  | none => false

def settle (s : State) (attempt : ℕ) (resolved : Bool) : State :=
  { s with outcome := fun a =>
      if a = attempt ∧ s.outcome a = none then some resolved else s.outcome a }

def clearTimeout (s : State) (attempt : ℕ) : State :=
  { s with timeouts := s.timeouts.filter (· ≠ attempt) }

def endClient (c : Client) : Client := { c with closeOwed := !c.closed }

def scheduleReconnect (s : State) (brokerUrl : String) : State :=
  match s.reconnectTimer with
  | some _ => s
  | none => { s with reconnectTimer := some brokerUrl }

def waitForConnection (s : State) (brokerUrl : String) : State :=
  { s with
    client := some ⟨s.nextAttempt,brokerUrl,false,false⟩
    connectionPromise := some s.nextAttempt
    timeouts := s.nextAttempt::s.timeouts
    nextAttempt := s.nextAttempt+1
    stuck := false
    starts := s.stopped::s.starts }

def proceed (s : State) (brokerUrl : String) : State :=
  if isConnected s then s
  else
    match s.connectionPromise with
    | some _ => s
    | none => waitForConnection s brokerUrl

def connect (s : State) (brokerUrl : String) (enableBuffer : Bool) : State :=
  let known := { s with lastBrokerUrl := some brokerUrl }
  if enableBuffer then { known with suspended := brokerUrl::known.suspended }
  else proceed known brokerUrl

def resume (s : State) (brokerUrl : String) : State :=
  if brokerUrl ∈ s.suspended then
    proceed { s with suspended := s.suspended.erase brokerUrl } brokerUrl
  else s

def ensureConnected (s : State) : State :=
  if isConnected s then s
  else
    match s.lastBrokerUrl with
    | none => s
    | some url =>
      if url = "" then s
      else
        match s.connectionPromise with
        | some _ => s
        | none => connect s url false

def handleConnect (s : State) (c : Client) : State :=
  settle { clearTimeout s c.attempt with
    connected := true
    consecutivePublishFailures := 0
    reconnectTimer := none
    connectionPromise := none
    stuck := false } c.attempt true

def handleConnectionError (s : State) (c : Client) : State :=
  if s.connected then s
  else
    settle { clearTimeout s c.attempt with
      client := some (endClient c)
      connectionPromise := none } c.attempt false

def handleOffline (s : State) (c : Client) : State :=
  scheduleReconnect { s with connected := false } c.brokerUrl

def handleDisconnect (s : State) (c : Client) : State :=
  scheduleReconnect { s with connected := false } c.brokerUrl

def handleClose (s : State) (c : Client) : State :=
  scheduleReconnect { s with
    client := some { c with closeOwed := false, closed := true }
    connected := false } c.brokerUrl

/-- Ten seconds after an attempt: the current client is ended, whose attempt
ever it was. -/
def timeout (s : State) (attempt : ℕ) : State :=
  if attempt ∈ s.timeouts then
    let cleared := clearTimeout s attempt
    if s.connected then cleared
    else
      match s.client with
      | none => cleared
      | some c => settle { cleared with client := some (endClient c) } attempt false
  else s

def publishFailed (s : State) : State :=
  let counted := { s with consecutivePublishFailures := s.consecutivePublishFailures+1 }
  match s.lastBrokerUrl with
  | none => counted
  | some url =>
    if publishFailureThreshold ≤ counted.consecutivePublishFailures ∧ url ≠ "" then
      scheduleReconnect { counted with stuck := true } url
    else counted

def publishSucceeded (s : State) : State :=
  { s with consecutivePublishFailures := 0, stuck := false }

def noteRestart (s : State) (restarted : Bool) : State :=
  if s.stuck then { s with restarts := restarted::s.restarts } else s

def fire (s : State) : State :=
  match s.reconnectTimer with
  | none => s
  | some url =>
    let fired := { s with reconnectTimer := none }
    if s.connected then noteRestart fired false
    else
      match s.connectionPromise with
      | some a => noteRestart { fired with tasks := .joined a url::fired.tasks } false
      | none =>
        let noted := noteRestart fired true
        let next := connect { noted with client := none } url false
        { next with tasks := .caught s.nextAttempt url::next.tasks }

def runTask (s : State) (t : Task) : State :=
  if t ∈ s.tasks then
    let taken := { s with tasks := s.tasks.erase t }
    match t with
    | .caught a url =>
      match s.outcome a with
      | none => s
      | some true => taken
      | some false => scheduleReconnect { taken with connectionPromise := none } url
    | .joined a url =>
      match s.outcome a with
      | none => s
      | some _ =>
        if s.connected then taken
        else scheduleReconnect { taken with connectionPromise := none } url
  else s

def disconnect (s : State) : State :=
  let called := { s with disconnectCalled := true, stopped := false }
  match s.client with
  | none => { called with stopped := true }
  | some c => { called with client := some (endClient c), ending := s.ending+1 }

def ended (s : State) : State :=
  if s.ending = 0 then s
  else { s with ending := s.ending-1, connected := false, stopped := true }

inductive Event where
  | connectCall (brokerUrl : String) (enableBuffer : Bool)
  | resume (brokerUrl : String)
  /-- A publish that the buffer takes does not look at the connection. -/
  | publishCall (buffered : Bool)
  | subscribeCall
  | disconnectCall
  | ended
  | onConnect
  | onError
  | onOffline
  | onClose
  | onDisconnect
  | timeout (attempt : ℕ)
  | publishFailed
  | publishSucceeded
  | fire
  | task (t : Task)
  deriving DecidableEq

def called (s : State) : State := { s with stopped := false }

def onClient (s : State) (handle : State → Client → State) : State :=
  match s.client with
  | none => s
  | some c => handle s c

def step (s : State) : Event → State
  | .connectCall brokerUrl enableBuffer => connect (called s) brokerUrl enableBuffer
  | .resume brokerUrl => resume s brokerUrl
  | .publishCall buffered => if buffered then called s else ensureConnected (called s)
  | .subscribeCall => ensureConnected (called s)
  | .disconnectCall => disconnect s
  | .ended => ended s
  | .onConnect => onClient s handleConnect
  | .onError => onClient s handleConnectionError
  | .onOffline => onClient s handleOffline
  | .onClose => onClient s handleClose
  | .onDisconnect => onClient s handleDisconnect
  | .timeout attempt => timeout s attempt
  | .publishFailed => publishFailed s
  | .publishSucceeded => publishSucceeded s
  | .fire => fire s
  | .task t => runTask s t

end Iotistica.AgentConnection
