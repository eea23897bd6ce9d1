import Iotistica.BatchLimits
import Iotistica.ModbusLock
import Iotistica.JsText

/-!
# Polls of a device

A poll goes through the precomputed batches. A request that a busy device
refuses is repeated; a batch that fails is read again from the start and
then in halves, which wait for their answers side by side. Requests settle
in any order, and between two of them anything may happen to the client.
-/

set_option autoImplicit false

namespace Iotistica.ModbusPolls
open Iotistica.Modbus Iotistica.JsText
open Iotistica.ModbusLock (Client)

/-- A register with its name and `unit || ''`. -/
structure ModbusRegister extends Register where
  name : String
  unit : String

structure ModbusDevice where
  name : String
  stableDeviceId : String
  gapTolerance : ℤ
  registers : List ModbusRegister

def FunctionCode.number : FunctionCode → ℕ
  | .readCoils => 1
  | .readDiscreteInputs => 2
  | .readHoldingRegisters => 3
  | .readInputRegisters => 4
  | .writeSingleCoil => 5
  | .writeSingleRegister => 6
  | .writeMultipleCoils => 15
  | .writeMultipleRegisters => 16

def functionCodes : List FunctionCode :=
  [.readCoils,.readDiscreteInputs,.readHoldingRegisters,.readInputRegisters,.writeSingleCoil,
    .writeSingleRegister,.writeMultipleCoils,.writeMultipleRegisters]

/-- The loop of `joinBatches`; the batch has its registers in reverse. -/
def joinNamed (gapTolerance : ℤ) (b : Batch) (batch : List ModbusRegister) :
    List ModbusRegister → List (List ModbusRegister)
  | [] => [batch.reverse]
  | r::rest =>
    if canBatch gapTolerance b r.toRegister then
      joinNamed gapTolerance (b.push r.toRegister) (r::batch) rest
    else batch.reverse::joinNamed gapTolerance (.start r.toRegister) [r] rest

def sortNamed (registers : List ModbusRegister) : List ModbusRegister :=
  registers.insertionSort (fun a b => a.address ≤ b.address)

def optimizeNamed (gapTolerance : ℤ) (registers : List ModbusRegister) :
    List (List ModbusRegister) :=
  match sortNamed registers with
  | [] => []
  | r::rest => joinNamed gapTolerance (.start r.toRegister) [r] rest

def groupRegistersByFunction (registers : List ModbusRegister) (code : FunctionCode) :
    List ModbusRegister :=
  registers.filter (fun r => r.functionCode = code)

def precomputedBatches (device : ModbusDevice) : List (List ModbusRegister) :=
  functionCodes.flatMap (fun code =>
    optimizeNamed device.gapTolerance (groupRegistersByFunction device.registers code))

inductive Quality where
  | GOOD
  | BAD
  deriving DecidableEq

structure DeviceDataPoint where
  deviceName : String
  deviceId : String
  metric : String
  value : Option Value
  unit : String
  timestamp : String
  quality : Quality
  qualityCode : Option String
  protocol : Option String

def qualityCodes : List (List String × String) :=
  [(["EPIPE"],"BROKEN_PIPE"),
   (["EIO"],"IO_ERROR"),
   (["ENXIO"],"DEVICE_NOT_CONFIGURED"),
   (["ENODEV"],"NO_SUCH_DEVICE"),
   (["Port is not open","Port is opening"],"PORT_NOT_OPEN"),
   (["Exception Code: 1","Exception 1"],"ILLEGAL_FUNCTION"),
   (["Exception Code: 2","Exception 2"],"ILLEGAL_ADDRESS"),
   (["Exception Code: 3","Exception 3"],"ILLEGAL_VALUE"),
   (["Exception Code: 4","Exception 4"],"DEVICE_FAILURE"),
   (["Exception Code: 5","Exception 5"],"ACKNOWLEDGE"),
   (["Exception Code: 6","Exception 6"],"DEVICE_BUSY"),
   (["Exception Code: 7","Exception 7"],"NEGATIVE_ACK"),
   (["Exception Code: 8","Exception 8"],"MEMORY_ERROR"),
   (["ETIMEDOUT","timeout","timed out"],"TIMEOUT"),
   (["ECONNREFUSED"],"CONNECTION_REFUSED"),
   (["EHOSTUNREACH"],"HOST_UNREACHABLE"),
   (["ECONNRESET"],"CONNECTION_RESET"),
   (["File not found","ENOENT"],"PORT_NOT_FOUND"),
   (["Exception"],"MODBUS_EXCEPTION")]

def extractQualityCode (errorMessage : String) : String :=
  match qualityCodes.find? (fun entry => entry.1.any (includes errorMessage)) with
  | some entry => entry.2
  | none => "READ_ERROR"

def isFatalSerialError (errorMessage : String) : Bool :=
  ["EPIPE","EIO","ENXIO","ENODEV","Port is not open","Port is opening"].any (includes errorMessage)

def isBusy (errorMessage : String) : Bool :=
  extractQualityCode errorMessage = "DEVICE_BUSY" || extractQualityCode errorMessage = "ACKNOWLEDGE"

def createGoodDataPoint (device : ModbusDevice) (timestamp : String) (r : ModbusRegister)
    (value : Value) : DeviceDataPoint :=
  ⟨device.name,device.stableDeviceId,r.name,some value,r.unit,timestamp,.GOOD,none,some "modbus"⟩

def createBadDataPoint (device : ModbusDevice) (timestamp : String) (r : ModbusRegister)
    (errorMessage : String) : DeviceDataPoint :=
  ⟨device.name,device.stableDeviceId,r.name,none,r.unit,timestamp,.BAD,
    some (extractQualityCode errorMessage),none⟩

def createBadQualityDataPoints (device : ModbusDevice) (timestamp qualityCode : String) :
    List DeviceDataPoint :=
  device.registers.map (fun r =>
    ⟨device.name,device.stableDeviceId,r.name,none,r.unit,timestamp,.BAD,some qualityCode,none⟩)

/-- How a request ends for its caller: with data, or with the message of
what was thrown, an external timeout included. -/
inductive Outcome where
  | data (raw : RawData)
  | failed (errorMessage : String)

def DataType.text : DataType → String
  | .int16 => "int16"
  | .uint16 => "uint16"
  | .int32 => "int32"
  | .uint32 => "uint32"
  | .float32 => "float32"
  | .boolean => "boolean"
  | .string => "string"

def parseErrorMessage (r : ModbusRegister) : ReadError → String
  | .unsupportedFunctionCode =>
    "Unsupported function code: "++toString (FunctionCode.number r.functionCode)
  | .invalidCoilType =>
    "Invalid data type "++DataType.text r.dataType++" for coil/discrete input"
  | .unsupportedDataType => "Unsupported data type: "++DataType.text r.dataType
  | .outOfBounds => "Attempt to access memory outside buffer bounds"

def isReadCode (code : FunctionCode) : Bool := isBitCode code || isWordCode code

/-- What a register's value was read as, or the message of the failure. -/
abbrev Answer := Except String Value

def readRegister (r : ModbusRegister) : Outcome → Answer
  | .failed errorMessage => .error errorMessage
  | .data raw =>
    if isReadCode r.functionCode then
      (parseRaw r.toRegister raw).mapError (parseErrorMessage r)
    else .error (parseErrorMessage r .unsupportedFunctionCode)

def readRegisterBatch (registers : List ModbusRegister) (outcome : Outcome) :
    Except String (List Value) :=
  match registers, outcome with
  | [], _ => .ok []
  | _, .failed errorMessage => .error errorMessage
  | first::others, .data raw =>
    if isReadCode first.functionCode then
      (first::others).mapM (fun r =>
        (parseRaw r.toRegister (registerData first.toRegister raw r.toRegister)).mapError
          (parseErrorMessage r))
    else .error ("Unsupported function code for batch read: "++
      toString (FunctionCode.number first.functionCode))

/-- `single` is `readRegisterWithRetry`, `batch` is
`readRegisterBatchWithRetry`, called by the poll itself or by the fallback;
`halves` waits for both parts of a batch. -/
inductive Task where
  | single (r : ModbusRegister) (retryCount : ℕ)
  | batch (registers : List ModbusRegister) (retryCount : ℕ) (fallback : Bool)
  | halves (left right : Task)
  | done (points : List DeviceDataPoint)

inductive Half where
  | left
  | right

def maxRetries : ℕ := 3
def maxBatchRetries : ℕ := 2

def readBatchSmartFallback : List ModbusRegister → Task
  | [] => .done []
  | [r] => .single r 0
  | registers => .batch registers 0 true

def startBatch : List ModbusRegister → Task
  | [r] => .single r 0
  | registers => .batch registers 0 false

def Task.size : Task → ℕ
  | .single _ _ => 1
  | .batch registers _ _ => registers.length
  | .halves left right => left.size+right.size
  | .done points => points.length

def join : Task → Task → Task
  | .done left, .done right => .done (left++right)
  | left, right => .halves left right

/-- A settled request: what becomes of its task, what it does to the client,
and what it said about which positions of the poll. -/
structure Settled where
  task : Task
  effect : Option ModbusLock.Event
  first : ℕ
  answers : List Answer

section Settling
variable (device : ModbusDevice) (timestamp : String)

def point (r : ModbusRegister) : Answer → DeviceDataPoint
  | .ok value => createGoodDataPoint device timestamp r value
  | .error errorMessage => createBadDataPoint device timestamp r errorMessage

def settleSingle (r : ModbusRegister) (retryCount : ℕ) (outcome : Outcome) :
    Task × Option ModbusLock.Event :=
  match readRegister r outcome with
  | .ok value => (.done [createGoodDataPoint device timestamp r value],some .readSucceeded)
  | .error errorMessage =>
    if isFatalSerialError errorMessage then
      (.done [createBadDataPoint device timestamp r errorMessage],some .fatalError)
    else if isBusy errorMessage && decide (retryCount < maxRetries) then
      (.single r (retryCount+1),none)
    else (.done [createBadDataPoint device timestamp r errorMessage],some .readFailed)

def settleBatch (registers : List ModbusRegister) (retryCount : ℕ) (fallback : Bool)
    (outcome : Outcome) : Task × Option ModbusLock.Event :=
  match readRegisterBatch registers outcome with
  | .ok values =>
    (.done (List.zipWith (createGoodDataPoint device timestamp) registers values),
      some .readSucceeded)
  | .error errorMessage =>
    if isBusy errorMessage && decide (retryCount < maxBatchRetries) then
      (.batch registers (retryCount+1) fallback,none)
    else if fallback then
      (join (readBatchSmartFallback (registers.take (registers.length/2)))
        (readBatchSmartFallback (registers.drop (registers.length/2))),none)
    else (readBatchSmartFallback registers,none)

def batchAnswers (registers : List ModbusRegister) (outcome : Outcome) : List Answer :=
  match readRegisterBatch registers outcome with
  | .ok values => values.map .ok
  | .error errorMessage => registers.map (fun _ => .error errorMessage)

/-- One outstanding request of a task settles; the task starts at a position
of the poll. -/
def Task.settle (outcome : Outcome) : Task → List Half → ℕ → Option Settled
  | .single r retryCount, [], start =>
    some ⟨(settleSingle device timestamp r retryCount outcome).1,
      (settleSingle device timestamp r retryCount outcome).2,start,[readRegister r outcome]⟩
  | .batch registers retryCount fallback, [], start =>
    some ⟨(settleBatch device timestamp registers retryCount fallback outcome).1,
      (settleBatch device timestamp registers retryCount fallback outcome).2,start,
      batchAnswers registers outcome⟩
  | .halves left right, .left::path, start =>
    (left.settle outcome path start).map (fun s => { s with task := join s.task right })
  | .halves left right, .right::path, start =>
    (right.settle outcome path (start+left.size)).map (fun s => { s with task := join left s.task })
  | _, _, _ => none

end Settling

/-- What the last settled request that covered a position said about it. -/
abbrev Record := ℕ → Option Answer

def record (last : Record) (first : ℕ) (answers : List Answer) : Record :=
  fun i => if first ≤ i ∧ i < first+answers.length then answers[i-first]? else last i

structure Poll where
  generation : ℕ
  timestamp : String
  dataPoints : List DeviceDataPoint
  task : Task
  rest : List (List ModbusRegister)
  last : Record

inductive Phase where
  | polling (poll : Poll)
  | returned (dataPoints : List DeviceDataPoint) (last : Record)

structure State where
  client : Client
  phase : Phase

inductive Event where
  | settle (path : List Half) (outcome : Outcome)
  /-- The loop takes the points of a batch and goes on with the next one. -/
  | proceed (now : String)
  /-- Timers, socket events, writes and other polls of the client. -/
  | elsewhere (event : ModbusLock.Event)

def Event.ofPoll : Event → Bool
  | .elsewhere _ => false
  | _ => true

def isConnected (client : Client) : Bool := client.isOpen client.generation

def readAllRegisters (device : ModbusDevice) (now : String) (client : Client) : State :=
  if isConnected client then
    ⟨client,.polling ⟨client.generation,now,[],.done [],precomputedBatches device,fun _ => none⟩⟩
  else
    ⟨ModbusLock.tryEnsureConnected client,
      .returned (createBadQualityDataPoints device now "DEVICE_OFFLINE") (fun _ => none)⟩

def settlePoll (device : ModbusDevice) (client : Client) (poll : Poll) (path : List Half)
    (outcome : Outcome) : Option State :=
  (poll.task.settle device poll.timestamp outcome path poll.dataPoints.length).map (fun s =>
    ⟨s.effect.elim client (ModbusLock.step client),
      .polling { poll with task := s.task, last := record poll.last s.first s.answers }⟩)

def proceedPoll (device : ModbusDevice) (client : Client) (poll : Poll) (now : String) :
    Option State :=
  match poll.task, poll.rest with
  | .done points, batch::rest =>
    some ⟨client,.polling { poll with
      dataPoints := poll.dataPoints++points, task := startBatch batch, rest := rest }⟩
  | .done points, [] =>
    if poll.generation ≠ client.generation then
      some ⟨client,.returned
        (createBadQualityDataPoints device now "CLIENT_RESET_DURING_POLL") poll.last⟩
    else some ⟨client,.returned (poll.dataPoints++points) poll.last⟩
  | _, _ => none

def step (device : ModbusDevice) (s : State) (event : Event) : Option State :=
  match s.phase, event with
  | .polling poll, .settle path outcome => settlePoll device s.client poll path outcome
  | .polling poll, .proceed now => proceedPoll device s.client poll now
  | .polling _, .elsewhere event => some { s with client := ModbusLock.step s.client event }
  | .returned _ _, _ => none

def run (device : ModbusDevice) (s : State) : List Event → Option State
  | [] => some s
  | event::events => (step device s event).bind (fun t => run device t events)

end Iotistica.ModbusPolls
