import Iotistica.JsonDoubles
import Iotistica.SetIndex
import Iotistica.Utf8Text

/-!
# The socket server of the agent

A client that has sent its subscription gets the points of its topics, or of
all topics, thinned by its own rules. The server keeps the active and the
pending sockets, an index from topics to sockets, the sockets of all topics,
and how often in a row a write to a socket has met a full kernel buffer.
-/

set_option autoImplicit false

namespace Iotistica.SocketServer
open Iotistica.JsText Iotistica.JsNumerals Iotistica.Utf8Text Iotistica.JsonText
open Iotistica.JsonDoubles

def maxClients : ℕ := 10
def backpressureThreshold : ℕ := 3
def maxPointsPerMessageLimit : ℤ := 1000
def maxMinIntervalMs : ℤ := 60000

inductive Quality where
  | good
  | bad
  | uncertain
  deriving DecidableEq, Repr

structure DeviceDataPoint (V : Type*) where
  deviceName : String
  metric : String
  quality : Quality
  rest : V

structure ClientRoutingRules where
  includeMetrics : List String
  excludeMetrics : List String
  includeDevices : List String
  excludeDevices : List String
  allowedQualities : List Quality
  minIntervalMs : ℤ
  maxPointsPerMessage : ℤ
  deriving DecidableEq, Repr

def getDefaultRoutingRules : ClientRoutingRules where
  includeMetrics := []
  excludeMetrics := []
  includeDevices := []
  excludeDevices := []
  allowedQualities := [.good,.bad,.uncertain]
  minIntervalMs := 0
  maxPointsPerMessage := 0

def trim (cs : List Char) : List Char :=
  ((cs.dropWhile isBlank).reverse.dropWhile isBlank).reverse

def stringItem (v : Value) : Option String :=
  match v with
  | .str s => let t := trim s.toList; if t.isEmpty then none else some (String.ofList t)
  | _ => none

def asStringSet (value : Option Value) : List String :=
  match value with
  | some (.arr items) => items.filterMap stringItem
  | _ => []

def quality (v : Value) : Option Quality :=
  match v with
  | .str s =>
    if s = "GOOD" then some .good
    else if s = "BAD" then some .bad
    else if s = "UNCERTAIN" then some .uncertain
    else none
  | _ => none

def floor (d : Decimal) : ℤ :=
  let m : ℤ := if d.negative then -(d.mantissa : ℤ) else d.mantissa
  if 0 ≤ d.exponent then m*10^d.exponent.toNat else m/10^(-d.exponent).toNat

def boundedNumber {D : Type*} (R : Doubles D) (limit : ℤ) (value : Option Value) : ℤ :=
  match value with
  | some (.num d) =>
    match R.shown (R.nearest d) with
    | none => 0
    | some e => max 0 (min (floor e) limit)
  | _ => 0

def parseRoutingRules {D : Type*} (R : Doubles D) (route : Option Value) : ClientRoutingRules :=
  let candidate := fun name => route.bind (fun v => member v name)
  let qualities :=
    match candidate "qualities" with
    | some (.arr items) => items.filterMap quality
    | _ => []
  { includeMetrics := asStringSet (candidate "includeMetrics")
    excludeMetrics := asStringSet (candidate "excludeMetrics")
    includeDevices := asStringSet (candidate "includeDevices")
    excludeDevices := asStringSet (candidate "excludeDevices")
    allowedQualities :=
      if qualities.isEmpty then getDefaultRoutingRules.allowedQualities else qualities
    minIntervalMs := boundedNumber R maxMinIntervalMs (candidate "minIntervalMs")
    maxPointsPerMessage :=
      boundedNumber R maxPointsPerMessageLimit (candidate "maxPointsPerMessage") }

structure ClientSubscription where
  topics : OrderedMap String Unit
  rules : ClientRoutingRules
  lastSentAt : ℤ

variable {V σ : Type*}

def admits (rules : ClientRoutingRules) (point : DeviceDataPoint V) : Bool :=
  rules.allowedQualities.contains point.quality &&
  (rules.includeMetrics.isEmpty || rules.includeMetrics.contains point.metric) &&
  !rules.excludeMetrics.contains point.metric &&
  (rules.includeDevices.isEmpty || rules.includeDevices.contains point.deviceName) &&
  !rules.excludeDevices.contains point.deviceName

def applyRoutingRules (subscription : ClientSubscription) (now : ℤ)
    (dataPoints : List (DeviceDataPoint V)) : List (DeviceDataPoint V) :=
  let rules := subscription.rules
  if 0 < rules.minIntervalMs ∧ 0 < subscription.lastSentAt ∧
      now-subscription.lastSentAt < rules.minIntervalMs then []
  else
    let filtered := dataPoints.filter (admits rules)
    if 0 < rules.maxPointsPerMessage ∧ rules.maxPointsPerMessage < filtered.length then
      filtered.take rules.maxPointsPerMessage.toNat
    else filtered

/-- What the handlers of a socket share. The subscription is the one object
that the map of active clients holds too. -/
structure Connection where
  subscription : ClientSubscription
  subscriptionReceived : Bool
  subscriptionBuffer : List Char
  timeoutHandle : Bool

/-- The sockets that were accepted, with the collections of the server and the
sockets that it has destroyed. -/
structure Server (σ : Type*) where
  connections : OrderedMap σ Connection
  subscriptions : OrderedMap σ Unit
  pendingSubscriptions : OrderedMap σ Unit
  topicToSockets : SetIndex String σ
  wildcardSockets : OrderedMap σ Unit
  slowClients : OrderedMap σ ℕ
  destroyed : List σ
  started : Bool

def Server.new : Server σ where
  connections := OrderedMap.empty
  subscriptions := OrderedMap.empty
  pendingSubscriptions := OrderedMap.empty
  topicToSockets := SetIndex.empty
  wildcardSockets := OrderedMap.empty
  slowClients := OrderedMap.empty
  destroyed := []
  started := false

variable [DecidableEq σ]

def topicsOf (s : Server σ) (socket : σ) : List String :=
  match s.connections.get? socket with
  | none => []
  | some c => c.subscription.topics.keys

def handleClientConnection (socket : σ) (s : Server σ) : Server σ :=
  if maxClients ≤ s.subscriptions.size+s.pendingSubscriptions.size then
    { s with destroyed := socket::s.destroyed }
  else
    { s with
      connections := s.connections.set socket
        ⟨⟨OrderedMap.empty,getDefaultRoutingRules,0⟩,false,[],true⟩
      pendingSubscriptions := s.pendingSubscriptions.add socket }

def unsubscribeAll (socket : σ) (s : Server σ) : Server σ :=
  { s with
    wildcardSockets := s.wildcardSockets.delete socket
    topicToSockets := s.topicToSockets.dropAll socket (topicsOf s socket) }

/-- A topic set empties the wildcard set of the socket, and only an empty one
puts it there. -/
def removeClient (socket : σ) (s : Server σ) : Server σ :=
  let untracked := { s with slowClients := s.slowClients.delete socket }
  if s.pendingSubscriptions.has socket then
    { untracked with
      pendingSubscriptions := s.pendingSubscriptions.delete socket
      destroyed := socket::s.destroyed }
  else if s.subscriptions.has socket then
    let topics := topicsOf s socket
    { untracked with
      subscriptions := s.subscriptions.delete socket
      wildcardSockets :=
        if topics.isEmpty then s.wildcardSockets.delete socket else s.wildcardSockets
      topicToSockets :=
        if topics.isEmpty then s.topicToSockets else s.topicToSockets.dropAll socket topics
      destroyed := socket::s.destroyed }
  else untracked

def topicNames (items : List Value) : List String :=
  items.filterMap fun v =>
    match v with
    | .str s => some s
    | _ => none

def subscribeMessage (line : List Char) : Option (List Value × Option Value) :=
  let line := trim line
  if line.isEmpty then none
  else
    (parse (String.ofList line)).bind fun msg =>
      match member msg "subscribe" with
      | some (.arr items) => some (items,member msg "route")
      | _ => none

/-- The subscription takes the place of the one before, and a pending socket
becomes active. What comes of the confirmation does not matter. -/
def subscribe (socket : σ) (c : Connection) (topics : List String) (rules : ClientRoutingRules)
    (s : Server σ) : Server σ :=
  let old := unsubscribeAll socket s
  let subscription : ClientSubscription :=
    ⟨topics.foldl (fun set t => set.add t) OrderedMap.empty,rules,c.subscription.lastSentAt⟩
  let indexed : Server σ :=
    if topics.isEmpty then { old with wildcardSockets := old.wildcardSockets.add socket }
    else
      { old with
        wildcardSockets := old.wildcardSockets.delete socket
        topicToSockets := old.topicToSockets.addAll socket topics }
  let confirmed : Server σ := { indexed with
    connections := s.connections.set socket ⟨subscription,true,c.subscriptionBuffer,false⟩ }
  if s.pendingSubscriptions.has socket then
    { confirmed with
      pendingSubscriptions := s.pendingSubscriptions.delete socket
      subscriptions := s.subscriptions.add socket }
  else confirmed

def setBuffer (socket : σ) (buffer : List Char) (s : Server σ) : Server σ :=
  match s.connections.get? socket with
  | none => s
  | some c =>
    { s with connections := s.connections.set socket { c with subscriptionBuffer := buffer } }

def linesOf (c : Connection) (chunk : List UInt8) : List (List Char) × List Char :=
  let parts := splitChars '\n' (c.subscriptionBuffer++decode chunk)
  (parts.dropLast,parts.getLastD [])

def handleSubscriptionMessage {D : Type*} (R : Doubles D) (socket : σ) (chunk : List UInt8)
    (s : Server σ) : Server σ :=
  match s.connections.get? socket with
  | none => s
  | some c =>
    let lines := linesOf c chunk
    let handled :=
      match lines.1.findSome? subscribeMessage with
      | none => s
      | some (items,route) => subscribe socket c (topicNames items) (parseRoutingRules R route) s
    setBuffer socket lines.2 handled

def clearTimer (socket : σ) (s : Server σ) : Server σ :=
  match s.connections.get? socket with
  | none => s
  | some c => { s with connections := s.connections.set socket { c with timeoutHandle := false } }

def handshakeTimeout (socket : σ) (s : Server σ) : Server σ :=
  match s.connections.get? socket with
  | none => s
  | some c =>
    let fired := clearTimer socket s
    if c.timeoutHandle && !c.subscriptionReceived then
      removeClient socket { fired with destroyed := socket::fired.destroyed }
    else fired

/-- The handlers of `error` and of `close`. -/
def socketGone (socket : σ) (s : Server σ) : Server σ := removeClient socket (clearTimer socket s)

inductive WriteResult where
  | flushed
  | full
  | threw
  deriving DecidableEq, Repr

/-- What a socket meets in a call of `sendData`: the clock when its rules are
applied, the result of the write, and the clock after it. -/
structure Answer where
  askedAt : ℤ
  result : WriteResult
  sentAt : ℤ

structure Write (σ V : Type*) where
  socket : σ
  points : List (DeviceDataPoint V)
  result : WriteResult

/-- The server in the middle of `sendData`, with the writes so far, the last first. -/
structure Round (σ V : Type*) where
  server : Server σ
  sentTo : List σ
  writes : List (Write σ V)

def setLastSentAt (socket : σ) (t : ℤ) (s : Server σ) : Server σ :=
  match s.connections.get? socket with
  | none => s
  | some c =>
    let sent := { c with subscription := { c.subscription with lastSentAt := t } }
    { s with connections := s.connections.set socket sent }

def sendToSocket (answer : Answer) (socket : σ) (s : Server σ) : Server σ :=
  match answer.result with
  | .full =>
    let failureCount := (s.slowClients.get? socket).getD 0+1
    let counted := { s with slowClients := s.slowClients.set socket failureCount }
    if backpressureThreshold+1 ≤ failureCount then removeClient socket counted else counted
  | .flushed =>
    setLastSentAt socket answer.sentAt { s with slowClients := s.slowClients.delete socket }
  | .threw => removeClient socket s

def pointsFor (s : Server σ) (dataPoints : List (DeviceDataPoint V)) (now : ℤ) (socket : σ) :
    List (DeviceDataPoint V) :=
  if s.subscriptions.has socket then
    match s.connections.get? socket with
    | none => []
    | some c => applyRoutingRules c.subscription now dataPoints
  else []

def routeAndSendToSocket (dataPoints : List (DeviceDataPoint V)) (answers : σ → Answer)
    (r : Round σ V) (socket : σ) : Round σ V :=
  let answer := answers socket
  let filteredPoints := pointsFor r.server dataPoints answer.askedAt socket
  if filteredPoints.isEmpty then r
  else
    { server := sendToSocket answer socket r.server
      sentTo := if answer.result = .flushed then socket::r.sentTo else r.sentTo
      writes := ⟨socket,filteredPoints,answer.result⟩::r.writes }

/-- A socket that left a set before its turn has no subscription any more, so
the passes go through the sets as they were at their start. -/
def sendData (dataPoints : List (DeviceDataPoint V)) (topic : String) (answers : σ → Answer)
    (s : Server σ) : Round σ V :=
  if !s.started || s.subscriptions.size == 0 then ⟨s,[],[]⟩
  else
    let named := (s.topicToSockets.members topic).foldl (routeAndSendToSocket dataPoints answers)
      ⟨s,[],[]⟩
    named.server.wildcardSockets.keys.foldl (fun r socket =>
      if socket ∈ r.sentTo then r else routeAndSendToSocket dataPoints answers r socket) named

def start (s : Server σ) : Server σ := { s with started := true }

def stop (s : Server σ) : Server σ :=
  if !s.started then s
  else
    { s with
      subscriptions := OrderedMap.empty
      pendingSubscriptions := OrderedMap.empty
      topicToSockets := SetIndex.empty
      wildcardSockets := OrderedMap.empty
      slowClients := OrderedMap.empty
      destroyed := s.subscriptions.keys++s.pendingSubscriptions.keys++s.destroyed
      started := false }

inductive Event (σ V : Type*) where
  | start
  | stop
  | connection (socket : σ)
  | data (socket : σ) (chunk : List UInt8)
  | timeout (socket : σ)
  | error (socket : σ)
  | close (socket : σ)
  | sendData (dataPoints : List (DeviceDataPoint V)) (topic : String) (answers : σ → Answer)

structure History (σ V : Type*) where
  server : Server σ
  writes : List (Write σ V)

def History.new : History σ V := ⟨.new,[]⟩

def step {D : Type*} (R : Doubles D) (h : History σ V) : Event σ V → History σ V
  | .start => { h with server := start h.server }
  | .stop => { h with server := stop h.server }
  | .connection socket => { h with server := handleClientConnection socket h.server }
  | .data socket chunk => { h with server := handleSubscriptionMessage R socket chunk h.server }
  | .timeout socket => { h with server := handshakeTimeout socket h.server }
  | .error socket => { h with server := socketGone socket h.server }
  | .close socket => { h with server := socketGone socket h.server }
  | .sendData dataPoints topic answers =>
    let round := sendData dataPoints topic answers h.server
    ⟨round.server,round.writes++h.writes⟩

end Iotistica.SocketServer
