import Iotistica.GuardedRun
import Iotistica.KeyedTable
import Iotistica.OrderedMap

/-!
# Subscriptions of an agent

Callers subscribe and unsubscribe by topic. A count for each topic decides
when the broker is asked, and the router has the handlers. The broker takes
the requests of a connection in their order, and its answers come back in
any. A client that is not connected keeps its requests until it is, unless
another one takes its place. What a lost connection or client leaves
unanswered may still fail.
-/

set_option autoImplicit false

namespace Iotistica.AgentSubscriptions
open Iotistica.KeyedTable

abbrev Handlers := List (String × ℕ)

def addHandler (handlers : Handlers) (pattern : String) (handler : ℕ) : Handlers :=
  handlers++[(pattern,handler)]

def removeHandler (handlers : Handlers) (handler : ℕ) : Handlers :=
  handlers.filter (fun h => h.2 ≠ handler)

def removePattern (handlers : Handlers) (pattern : String) : Handlers :=
  handlers.filter (fun h => h.1 ≠ pattern)

/-- A call waits for a connection or for the broker, or it has settled. A
resolved call may be cancelled, once, by unsubscribing. -/
inductive Phase where
  | waiting
  | pending
  | resolved
  | rejected (message : String)
  | cancelled
  deriving DecidableEq

structure Call where
  id : ℕ
  topic : String
  handler : Option ℕ
  phase : Phase

inductive Request where
  | subscribe (call : ℕ) (topic : String) (handler : Option ℕ)
  | unsubscribe (topic : String)
  | resubscribe (topic : String)
  deriving DecidableEq

/-- The arguments of a callback; `granted` has the qos of each subscription. -/
structure Answer where
  error : Option String
  granted : Option (List ℕ)
  deriving DecidableEq

/-- `queue` is what the broker has not taken, `offline` what a client keeps
that is not connected, `answered` what the broker answered and is on its way,
`lost` what earlier connections and clients left. -/
structure State where
  connected : Bool
  subscribedTopics : OrderedMap String ℕ
  handlers : Handlers
  calls : Table Call Call.id
  queue : List Request
  offline : List Request
  answered : List (Request × Answer)
  lost : List Request
  broker : List String

def started : State := ⟨false,.empty,[],.empty,[],[],[],[],[]⟩

def setPhase (s : State) (call : ℕ) (phase : Phase) : State :=
  { s with
    calls := s.calls.update (fun c => c.id = call) (fun c => { c with phase := phase })
      (fun _ => rfl) }

def send (s : State) (request : Request) : State :=
  if s.connected then { s with queue := s.queue++[request] }
  else { s with offline := s.offline++[request] }

def withHandler (handlers : Handlers) (topic : String) (handler : Option ℕ) : Handlers :=
  match handler with
  | some h => addHandler handlers topic h
  | none => handlers

def withoutHandler (handlers : Handlers) (handler : Option ℕ) : Handlers :=
  match handler with
  | some h => removeHandler handlers h
  | none => handlers

def register (s : State) (c : Call) : State :=
  let existingCount := (s.subscribedTopics.get? c.topic).getD 0
  let registered := { s with
    handlers := withHandler s.handlers c.topic c.handler
    subscribedTopics := s.subscribedTopics.set c.topic (existingCount+1) }
  if 0 < existingCount then setPhase registered c.id .resolved
  else send (setPhase registered c.id .pending) (.subscribe c.id c.topic c.handler)

def subscribe (s : State) (topic : String) (handler : Option ℕ) : State :=
  let called := { s with
    calls := s.calls.insert (fun id => ⟨id,topic,handler,.waiting⟩) (fun _ => rfl) }
  if s.connected then register called ⟨s.calls.next,topic,handler,.waiting⟩ else called

def rollback (s : State) (topic : String) (handler : Option ℕ) : State :=
  let count := (s.subscribedTopics.get? topic).getD 1
  { s with
    handlers := withoutHandler s.handlers handler
    subscribedTopics :=
      if count ≤ 1 then s.subscribedTopics.delete topic
      else s.subscribedTopics.set topic (count-1) }

def subscribeError (topic : String) (a : Answer) : Option String :=
  match a.error with
  | some message =>
    some ("Subscribe error: "++(if message = "" then "Unspecified error" else message))
  | none =>
    match a.granted with
    | none => some ("Subscribe failed: No subscription granted for topic: "++topic)
    | some [] => some ("Subscribe failed: No subscription granted for topic: "++topic)
    | some (qos::_) =>
      if qos = 128 then some ("Subscribe rejected by broker (QoS=128) for topic: "++topic) else none

def subscribeAnswered (s : State) (call : ℕ) (topic : String) (handler : Option ℕ) (a : Answer) :
    State :=
  match subscribeError topic a with
  | none => setPhase s call .resolved
  | some message => setPhase (rollback s topic handler) call (.rejected message)

def unsubscribe (s : State) (topic : String) : State :=
  let count := (s.subscribedTopics.get? topic).getD 0
  if 1 < count then { s with subscribedTopics := s.subscribedTopics.set topic (count-1) }
  else send { s with subscribedTopics := s.subscribedTopics.delete topic } (.unsubscribe topic)

def unsubscribeAnswered (s : State) (topic : String) (a : Answer) : State :=
  match a.error with
  | some _ => s
  | none => { s with handlers := removePattern s.handlers topic }

def callback (s : State) (r : Request) (a : Answer) : State :=
  match r with
  | .subscribe call topic handler => subscribeAnswered s call topic handler a
  | .unsubscribe topic => unsubscribeAnswered s topic a
  | .resubscribe _ => s

/-- What the broker has after it took a request; resubscriptions are
granted. -/
def taken (broker : List String) (r : Request) (a : Answer) : List String :=
  match r with
  | .subscribe _ topic _ => if subscribeError topic a = none then topic::broker else broker
  | .unsubscribe topic => if a.error = none then broker.filter (· ≠ topic) else broker
  | .resubscribe topic => topic::broker

def resubscribeAll (s : State) : State :=
  s.subscribedTopics.keys.foldl (fun s topic => send s (.resubscribe topic)) s

inductive Event where
  | subscribe (topic : String) (handler : Option ℕ)
  /-- The connection that a call waited for is there, or will not come. -/
  | reached (call : ℕ)
  | unreachable (call : ℕ) (message : String)
  /-- The caller of a resolved call unsubscribes. -/
  | unsubscribe (call : ℕ)
  /-- The broker takes the next request. -/
  | take (a : Answer)
  | deliver (r : Request) (a : Answer)
  | fail (r : Request) (message : String)
  | drop
  /-- A new client starts to connect. -/
  | attempt
  /-- A connection to a broker that has `session`. -/
  | connect (session : List String)
  deriving DecidableEq

def withCall (s : State) (id : ℕ) (phase : Phase) (f : Call → State) : State :=
  match s.calls.rows.find? (fun c => c.id = id) with
  | some c => if c.phase = phase then f c else s
  | none => s

def take (s : State) (a : Answer) : State :=
  match s.queue with
  | [] => s
  | r::rest =>
    { s with
      queue := rest
      answered := s.answered++[(r,a)]
      broker := taken s.broker r a }

def step (s : State) : Event → State
  | .subscribe topic handler => subscribe s topic handler
  | .reached call => withCall s call .waiting (register s)
  | .unreachable call message =>
    withCall s call .waiting (fun c => setPhase s c.id (.rejected message))
  | .unsubscribe call =>
    withCall s call .resolved (fun c => unsubscribe (setPhase s c.id .cancelled) c.topic)
  | .take a => take s a
  | .deliver r a =>
    if (r,a) ∈ s.answered then callback { s with answered := s.answered.erase (r,a) } r a else s
  | .fail r message =>
    if r ∈ s.lost then callback { s with lost := s.lost.erase r } r ⟨some message,none⟩ else s
  | .drop =>
    { s with
      connected := false
      lost := s.lost++s.queue++s.answered.map Prod.fst
      queue := []
      answered := [] }
  | .attempt => { s with lost := s.lost++s.offline, offline := [] }
  | .connect session =>
    if s.connected then s else
      resubscribeAll { s with
        connected := true
        queue := s.offline
        offline := []
        broker := session }

end Iotistica.AgentSubscriptions
