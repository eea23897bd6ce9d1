import Iotistica.ModbusPolls
import Iotistica.AnomalyFeed
import Mathlib.Data.Rat.Floor
import Mathlib.Algebra.Order.Round

/-!
# Writes of a Modbus client

A value is unscaled, rounded, checked and put into words in the byte order
of its register. Arithmetic is exact here, so `scale` and `offset` are
rationals and take the place of the doubles of the definition. Floats and
strings are not written.
-/

set_option autoImplicit false

namespace Iotistica.ModbusWrites
open Iotistica.Modbus
open Iotistica.ModbusPolls (FunctionCode.number DataType.text)

def isInteger : DataType → Bool
  | .int16 => true
  | .uint16 => true
  | .int32 => true
  | .uint32 => true
  | _ => false

structure ScaledRegister where
  name : String
  register : Register
  scale : ℚ
  offset : ℚ
  integer : isInteger register.dataType = true
  scale_ne : scale ≠ 0

inductive WriteValue where
  | number (q : ℚ)
  | notFinite
  | bool (b : Bool)
  | text (s : String)

/-- `Number` of a text. -/
def numberOfText (s : String) : Option ℚ :=
  let cs := trim s.toList
  if cs = [] then some 0
  else (AnomalyFeed.numberOf cs).bind (fun q => if AnomalyFeed.finite q then some q else none)

def toNumber (registerName : String) : WriteValue → Except String ℚ
  | .number q => .ok q
  | .notFinite => .error ("Value for register "++registerName++" must be a finite number")
  | .text s =>
    match numberOfText s with
    | some q => .ok q
    | none => .error ("Value for register "++registerName++" is not a valid number: "++s)
  | .bool _ => .error ("Value for register "++registerName++" must be numeric")

/-- `Math.round`: halves go up. -/
def mathRound (q : ℚ) : ℤ := ⌊q+1/2⌋

/-- What it gives is an integer, so `ensureInteger` lets it pass. -/
def toUnscaledNumeric (r : ScaledRegister) (value : WriteValue) : Except String ℤ :=
  (toNumber r.name value).map (fun parsed => mathRound ((parsed-r.offset)/r.scale))

def ensureRange (registerName : String) (value min max : ℤ) : Except String ℤ :=
  if value < min ∨ value > max then
    .error ("Value for register "++registerName++" out of range ("++toString min++" to "++
      toString max++")")
  else .ok value

def minValue : DataType → ℤ
  | .int16 => -32768
  | .int32 => -2147483648
  | _ => 0

def maxValue : DataType → ℤ
  | .int16 => 32767
  | .uint16 => 65535
  | .int32 => 2147483647
  | .uint32 => 4294967295
  | _ => 0

/-- `writeInt32BE` and `writeUInt32BE`. -/
def int32Bytes (value : ℤ) : List ℕ :=
  let n := (value%4294967296).toNat
  [n/16777216,n/65536%256,n/256%256,n%256]

/-- `readUInt16BE` or `readUInt16LE` of the `i`-th word. -/
def bufferWord (order : ByteOrder) (buffer : List ℕ) (i : ℕ) : ℕ :=
  let first := buffer[2*i]?.getD 0
  let second := buffer[2*i+1]?.getD 0
  match order with
  | .ABCD => first*256+second
  | .CDAB => first*256+second
  | .BADC => second*256+first
  | .DCBA => second*256+first

/-- The register at a position takes the word that `source` gives: the loop
fills `count-1-i` from `i`, which is `i` from `count-1-i`. -/
def packBufferToRegisters (buffer : List ℕ) (order : ByteOrder) (count : ℕ) : List UInt16 :=
  (List.range count).map (fun i => UInt16.ofNat (bufferWord order buffer (source order count i)))

def applyByteOrder (registers : List UInt16) (order : ByteOrder) (count : ℕ) : List ℕ :=
  (List.range count).flatMap (fun i => wordBytes order (word registers (source order count i)))

def resolveWriteFunctionCode (r : ScaledRegister) : Except String FunctionCode :=
  match r.register.functionCode with
  | .writeSingleCoil => .ok .writeSingleCoil
  | .writeSingleRegister => .ok .writeSingleRegister
  | .writeMultipleCoils => .ok .writeMultipleCoils
  | .writeMultipleRegisters => .ok .writeMultipleRegisters
  | .readCoils => .ok (if span r.register > 1 then .writeMultipleCoils else .writeSingleCoil)
  | .readHoldingRegisters =>
    .ok (if span r.register > 1 then .writeMultipleRegisters else .writeSingleRegister)
  | code => .error ("Register "++r.name++" is read-only (function code "++
      toString (FunctionCode.number code)++")")

def serializeBooleanValue (r : ScaledRegister) : WriteValue → Except String Bool
  | .bool b => .ok b
  | .number q =>
    if q = 0 then .ok false
    else if q = 1 then .ok true
    else .error ("Boolean register "++r.name++" only accepts 0 or 1 as numeric values")
  | .notFinite => .error ("Boolean register "++r.name++" only accepts 0 or 1 as numeric values")
  | .text s =>
    let normalized := JsText.toLowerCase (String.ofList (trim s.toList))
    if normalized = "true" || normalized = "1" then .ok true
    else if normalized = "false" || normalized = "0" then .ok false
    else .error ("Invalid boolean value for register "++r.name++": "++s)

def serializeSingleRegisterValue (r : ScaledRegister) (value : WriteValue) :
    Except String UInt16 :=
  (toUnscaledNumeric r value).bind (fun rawValue =>
    match r.register.dataType with
    | .int16 => (ensureRange r.name rawValue (-32768) 32767).map
        (fun n => UInt16.ofNat (n%65536).toNat)
    | .uint16 => (ensureRange r.name rawValue 0 65535).map (fun n => UInt16.ofNat n.toNat)
    | dataType => .error ("Register "++r.name++" uses data type "++DataType.text dataType++
        " and requires multi-register write"))

def serializeInt32 (r : ScaledRegister) (value : WriteValue) (min max : ℤ) (typeName : String) :
    Except String (List UInt16) :=
  (toUnscaledNumeric r value).bind (fun rawValue =>
    (ensureRange r.name rawValue min max).bind (fun n =>
      if span r.register*2 < 4 then
        .error ("Register "++r.name++" requires at least 2 registers for "++typeName)
      else .ok (packBufferToRegisters (int32Bytes n++List.replicate (span r.register*2-4) 0)
        (resolveByteOrder r.register) (span r.register))))

def serializeMultiRegisterValues (r : ScaledRegister) (value : WriteValue) :
    Except String (List UInt16) :=
  match r.register.dataType with
  | .int32 => serializeInt32 r value (-2147483648) 2147483647 "int32"
  | .uint32 => serializeInt32 r value 0 4294967295 "uint32"
  | dataType =>
    .error ("Unsupported multi-register data type for write: "++DataType.text dataType)

inductive Written where
  | coil (value : Bool)
  | registers (words : List UInt16)

def writeRawRegister (r : ScaledRegister) (value : WriteValue) : Except String Written :=
  (resolveWriteFunctionCode r).bind (fun code =>
    match code with
    | .writeSingleCoil => (serializeBooleanValue r value).map .coil
    | .writeSingleRegister =>
      (serializeSingleRegisterValue r value).map (fun w => .registers [w])
    | .writeMultipleCoils => .error ("Register "++r.name++
        " requires multiple coil values, but API accepts a single primitive value")
    | .writeMultipleRegisters => (serializeMultiRegisterValues r value).map .registers
    | code => .error ("Unsupported write function code: "++toString (FunctionCode.number code)))

/-- The integer that `readNumber` makes a double of. -/
def readInteger (dataType : DataType) (bytes : List ℕ) : Option ℤ :=
  match dataType with
  | .int16 => some (toSigned 2 (readUInt bytes))
  | .uint16 => some (readUInt bytes)
  | .int32 => some (toSigned 4 (readUInt bytes))
  | .uint32 => some (readUInt bytes)
  | _ => none

/-- `parseRegisterData` before its value is rounded to a double. -/
def parseRegisterData (r : ScaledRegister) (data : List UInt16) : Option ℚ :=
  let buf := buffer r.register (arranged r.register data)
  match width r.register.dataType with
  | some n =>
    if buf.length < n then none
    else (readInteger r.register.dataType (buf.take n)).map (fun m : ℤ => (m : ℚ)*r.scale+r.offset)
  | none => none

end Iotistica.ModbusWrites
