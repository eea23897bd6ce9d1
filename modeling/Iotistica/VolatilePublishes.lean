import Iotistica.GuardedRun

/-!
# The volatile publish queue of an agent

Without a buffer, what cannot be published goes into a queue in memory. Each
connection drains it, with a bounded number of messages in flight, and each
callback drains on. The client may call back while it is given a message, and
the drain then calls itself.
-/

set_option autoImplicit false

namespace Iotistica.VolatilePublishes

def maxPendingPublishes : ℕ := 1000

def maxInflight : ℕ := 10

inductive PublishMode where
  | direct
  | bufferOnly
  | recovering
  deriving DecidableEq

structure PublishOptions where
  qos : ℕ
  retain : Bool
  deriving DecidableEq

/-- `id` counts the messages that were queued. -/
structure Message where
  id : ℕ
  topic : String
  payload : String
  options : Option PublishOptions
  deriving DecidableEq

/-- `contents` has every value of the queue, `passed` the mode at each
message that the client was given, `evictions` the id that was shifted out
and the ids of the queue it was shifted out of. `returned` is false once a
drain does not end. -/
structure State where
  client : Bool
  connected : Bool
  publishMode : PublishMode
  pendingPublishes : List Message
  inflightPublishes : ℕ
  awaiting : List Message
  nextId : ℕ
  confirmed : List ℕ
  evictions : List (ℕ × List ℕ)
  contents : List (List Message)
  passed : List PublishMode
  returned : Bool

def started : State := ⟨false,false,.direct,[],0,[],0,[],[],[[]],[],true⟩

def setPending (s : State) (queue : List Message) : State :=
  { s with pendingPublishes := queue, contents := queue::s.contents }

def shiftFull (s : State) : State :=
  match s.pendingPublishes with
  | [] => s
  | m::rest =>
    if maxPendingPublishes ≤ (m::rest).length then
      setPending { s with evictions := (m.id,(m::rest).map Message.id)::s.evictions } rest
    else s

def enqueuePending (s : State) (topic payload : String) (options : Option PublishOptions) : State :=
  let shifted := shiftFull s
  setPending { shifted with nextId := shifted.nextId+1 }
    (shifted.pendingPublishes++[⟨shifted.nextId,topic,payload,options⟩])

def online (s : State) : Bool := s.client && s.connected

def publish (s : State) (topic payload : String) (options : Option PublishOptions) : State :=
  if online s = false then enqueuePending s topic payload options
  else if s.publishMode ≠ .direct then enqueuePending s topic payload options
  else { s with passed := s.publishMode::s.passed }

inductive Answer where
  | later
  | success
  | failed
  deriving DecidableEq

/-- The client's answers during one call of the drain: the first ones, and
what all others are. -/
structure Answers where
  first : List Answer
  rest : Answer
  deriving DecidableEq

def Answers.answer (a : Answers) : Answer := a.first.headD a.rest

def Answers.later (a : Answers) : Answers := ⟨a.first.tail,a.rest⟩

def published (s : State) (msg : Message) (err : Bool) : State :=
  let released := { s with inflightPublishes := s.inflightPublishes-1 }
  if err then setPending released (msg::s.pendingPublishes)
  else { released with confirmed := msg.id::s.confirmed }

def pass (s : State) (rest : List Message) : State :=
  setPending { s with
    inflightPublishes := s.inflightPublishes+1
    passed := s.publishMode::s.passed } rest

def keep (s : State) (msg : Message) : State := { s with awaiting := s.awaiting++[msg] }

def guarded (loop : Answers → State → Option (Answers × State)) (answers : Answers) (s : State) :
    Option (Answers × State) :=
  if s.pendingPublishes = [] ∨ online s = false then some (answers,s) else loop answers s

def deliver (loop : Answers → State → Option (Answers × State)) (left : Answers) (s : State)
    (msg : Message) : Answer → Option (Answers × State)
  | .later => loop left (keep s msg)
  | .success => (guarded loop left (published s msg false)).bind (fun r => loop r.1 r.2)
  | .failed => (guarded loop left (published s msg true)).bind (fun r => loop r.1 r.2)

def drainLoop : ℕ → Answers → State → Option (Answers × State)
  | 0, _, _ => none
  | fuel+1, answers, s =>
    match s.pendingPublishes with
    | [] => some (answers,s)
    | msg::rest =>
      if s.inflightPublishes < maxInflight then
        deliver (drainLoop fuel) answers.later (pass s rest) msg answers.answer
      else some (answers,s)

def drainBatch (fuel : ℕ) (answers : Answers) (s : State) : Option (Answers × State) :=
  guarded (drainLoop fuel) answers s

def drainFuel (answers : Answers) (s : State) : ℕ :=
  answers.first.length+s.pendingPublishes.length+1

def drained (answers : Answers) (s : State) : State :=
  match drainBatch (drainFuel answers s) answers s with
  | some (_,s') => s'
  | none => { s with returned := false }

def drainPendingPublishes (s : State) (answers : Answers) : State :=
  if s.pendingPublishes = [] then s else drained answers s

def callback (s : State) (id : ℕ) (err : Bool) (answers : Answers) : State :=
  match s.awaiting.find? (fun m => m.id = id) with
  | none => s
  | some m => drained answers (published { s with awaiting := s.awaiting.erase m } m err)

inductive Event where
  | publish (topic payload : String) (options : Option PublishOptions)
  | setPublishMode (mode : PublishMode)
  /-- The client connects, with its answers during the drain. -/
  | connect (answers : Answers)
  | disconnect
  /-- The client is closed, or another one is created. -/
  | replace (client : Bool)
  | callback (id : ℕ) (err : Bool) (answers : Answers)
  deriving DecidableEq

def step (s : State) (e : Event) : State :=
  if s.returned then
    match e with
    | .publish topic payload options => publish s topic payload options
    | .setPublishMode mode => { s with publishMode := mode }
    | .connect answers =>
      drainPendingPublishes { s with client := true, connected := true } answers
    | .disconnect => { s with connected := false }
    | .replace client => { s with client := client }
    | .callback id err answers => callback s id err answers
  else s

end Iotistica.VolatilePublishes
