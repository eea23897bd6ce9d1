import Mathlib.Data.List.Basic
import Mathlib.Algebra.Group.Nat.Defs
import Mathlib.Algebra.Ring.Int.Defs
import Mathlib.Data.Int.Notation
import Mathlib.Data.List.Sort
import Mathlib.Data.List.Pairwise

/-!
# Modbus registers in batches

A register definition says where its words lie, how many there are and how
their bytes make a value; numbers are doubles. Registers of one function code
are sorted by address and joined as long as the next one begins near the end
of the one added last. A register that ends after the last one of its batch
gets fewer words than it would alone.
-/

set_option autoImplicit false

namespace Iotistica.Modbus

inductive FunctionCode where
  | readCoils
  | readDiscreteInputs
  | readHoldingRegisters
  | readInputRegisters
  | writeSingleCoil
  | writeSingleRegister
  | writeMultipleCoils
  | writeMultipleRegisters
  deriving DecidableEq

inductive DataType where
  | int16
  | uint16
  | int32
  | uint32
  | float32
  | boolean
  | string
  deriving DecidableEq

inductive ByteOrder where
  | ABCD
  | CDAB
  | BADC
  | DCBA
  deriving DecidableEq

inductive Endianness where
  | big
  | little
  deriving DecidableEq

inductive Encoding where
  | ascii
  | utf8
  | latin1
  deriving DecidableEq

structure Register where
  address : ℕ
  functionCode : FunctionCode
  dataType : DataType
  count : ℕ
  byteOrder : Option ByteOrder
  endianness : Option Endianness
  scale : Float
  offset : Float
  encoding : Option Encoding
  noBatch : Bool
  count_pos : 0 < count

/-- `register.count || 1`. -/
def span (r : Register) : ℕ := if r.count = 0 then 1 else r.count

theorem span_eq (r : Register) : span r = r.count := if_neg (Nat.pos_iff_ne_zero.mp r.count_pos)

inductive Value where
  | bool (b : Bool)
  | number (x : Float)
  | text (s : String)

/-- What a read throws apart from a failed request. -/
inductive ReadError where
  | unsupportedFunctionCode
  | invalidCoilType
  | unsupportedDataType
  | outOfBounds
  deriving DecidableEq

/-- State of the decoder inside a sequence: the code point so far, how many
bytes are missing, and the range of the next one. -/
structure Pending where
  codePoint : ℕ
  needed : ℕ
  lower : ℕ
  upper : ℕ

def replacement : Char := Char.ofNat 0xFFFD

def utf8Start (b : ℕ) : List Char × Option Pending :=
  if b < 0x80 then ([Char.ofNat b],none)
  else if 0xC2 ≤ b ∧ b ≤ 0xDF then ([],some ⟨b%0x20,1,0x80,0xBF⟩)
  else if 0xE0 ≤ b ∧ b ≤ 0xEF then
    ([],some ⟨b%0x10,2,if b = 0xE0 then 0xA0 else 0x80,if b = 0xED then 0x9F else 0xBF⟩)
  else if 0xF0 ≤ b ∧ b ≤ 0xF4 then
    ([],some ⟨b%0x8,3,if b = 0xF0 then 0x90 else 0x80,if b = 0xF4 then 0x8F else 0xBF⟩)
  else ([replacement],none)

def utf8Next (p : Pending) (b : ℕ) : List Char × Option Pending :=
  if p.lower ≤ b ∧ b ≤ p.upper then
    let codePoint := p.codePoint*0x40+b%0x40
    if p.needed = 1 then ([Char.ofNat codePoint],none)
    else ([],some ⟨codePoint,p.needed-1,0x80,0xBF⟩)
  else (replacement::(utf8Start b).1,(utf8Start b).2)

def decodeUtf8 : Option Pending → List ℕ → List Char
  | none, [] => []
  | some _, [] => [replacement]
  | none, b::bs => (utf8Start b).1++decodeUtf8 (utf8Start b).2 bs
  | some p, b::bs => (utf8Next p b).1++decodeUtf8 (utf8Next p b).2 bs

/-- `buffer.toString(encoding)`; ASCII drops the high bit. -/
def bufferToText (encoding : Encoding) (buffer : List ℕ) : List Char :=
  match encoding with
  | .ascii => buffer.map (fun b => Char.ofNat (b%128))
  | .latin1 => buffer.map Char.ofNat
  | .utf8 => decodeUtf8 none buffer

def isWhiteSpace (c : Char) : Bool :=
  let n := c.toNat
  (9 ≤ n && n ≤ 13) || n == 0x20 || n == 0xA0 || n == 0x1680 || (0x2000 ≤ n && n ≤ 0x200A) ||
    n == 0x2028 || n == 0x2029 || n == 0x202F || n == 0x205F || n == 0x3000 || n == 0xFEFF

def trim (cs : List Char) : List Char :=
  ((cs.dropWhile isWhiteSpace).reverse.dropWhile isWhiteSpace).reverse

def resolveByteOrder (r : Register) : ByteOrder :=
  match r.byteOrder, r.endianness with
  | some order, _ => order
  | none, some .big => .ABCD
  | none, some .little => .CDAB
  | none, none => .ABCD

/-- `data[i]` as `writeUInt16` takes it: a missing element is not a number
and is written as zero bytes. -/
def word (data : List UInt16) (i : ℕ) : ℕ := (data[i]?.getD 0).toNat

/-- Position in the data of the word that comes `i`-th in the buffer. -/
def source (order : ByteOrder) (count i : ℕ) : ℕ :=
  match order with
  | .ABCD => i
  | .BADC => i
  | .CDAB => count-1-i
  | .DCBA => count-1-i

def wordBytes (order : ByteOrder) (w : ℕ) : List ℕ :=
  match order with
  | .ABCD => [w/256,w%256]
  | .CDAB => [w/256,w%256]
  | .BADC => [w%256,w/256]
  | .DCBA => [w%256,w/256]

/-- One word goes in as it is, whatever the byte order. -/
def bufferOrder (r : Register) : ByteOrder := if r.count = 1 then .ABCD else resolveByteOrder r

def arranged (r : Register) (data : List UInt16) : List ℕ :=
  (List.range r.count).map (fun i => word data (source (bufferOrder r) r.count i))

def buffer (r : Register) (words : List ℕ) : List ℕ := words.flatMap (wordBytes (bufferOrder r))

def readUInt (bytes : List ℕ) : ℕ := bytes.foldl (fun n b => n*256+b) 0

/-- An unsigned reading as two's complement of `width` bytes. -/
def toSigned (width n : ℕ) : ℤ := if 2*n < 256^width then n else (n : ℤ)-256^width

def width : DataType → Option ℕ
  | .int16 => some 2
  | .uint16 => some 2
  | .int32 => some 4
  | .uint32 => some 4
  | .float32 => some 4
  | .boolean => none
  | .string => none

def readNumber (dataType : DataType) (bytes : List ℕ) : Float :=
  match dataType with
  | .int16 => Float.ofInt (toSigned 2 (readUInt bytes))
  | .int32 => Float.ofInt (toSigned 4 (readUInt bytes))
  | .float32 => (Float32.ofBits (UInt32.ofNat (readUInt bytes))).toFloat
  | _ => Float.ofNat (readUInt bytes)

def parseBuffer (r : Register) (buf : List ℕ) : Except ReadError Value :=
  match width r.dataType with
  | some n =>
    if buf.length < n then .error .outOfBounds
    else .ok (.number (readNumber r.dataType (buf.take n)*r.scale+r.offset))
  | none =>
    if r.dataType = .string then
      .ok (.text (String.ofList (trim
        ((bufferToText (r.encoding.getD .ascii) buf).filter (fun c => c.toNat != 0)))))
    else .error .unsupportedDataType

def parseRegisterData (r : Register) (data : List UInt16) : Except ReadError Value :=
  parseBuffer r (buffer r (arranged r data))

def parseCoilData (r : Register) (data : List Bool) : Except ReadError Value :=
  if r.dataType = .boolean then .ok (.bool (data[0]?.getD false)) else .error .invalidCoilType

structure Device where
  bits : FunctionCode → ℕ → Bool
  words : FunctionCode → ℕ → UInt16

inductive RawData where
  | bits (data : List Bool)
  | words (data : List UInt16)

def fetch {α : Type} (memory : ℕ → α) (address count : ℕ) : List α :=
  (List.range count).map (fun k => memory (address+k))

def readBatchRaw (dev : Device) (code : FunctionCode) (address count : ℕ) :
    Except ReadError RawData :=
  match code with
  | .readCoils => .ok (.bits (fetch (dev.bits .readCoils) address count))
  | .readDiscreteInputs => .ok (.bits (fetch (dev.bits .readDiscreteInputs) address count))
  | .readHoldingRegisters => .ok (.words (fetch (dev.words .readHoldingRegisters) address count))
  | .readInputRegisters => .ok (.words (fetch (dev.words .readInputRegisters) address count))
  | _ => .error .unsupportedFunctionCode

def parseRaw (r : Register) : RawData → Except ReadError Value
  | .bits data => parseCoilData r data
  | .words data => parseRegisterData r data

def readRegister (dev : Device) (r : Register) : Except ReadError Value :=
  (readBatchRaw dev r.functionCode r.address r.count).bind (parseRaw r)

def maxBatchSize : ℕ := 125

def sortByAddress (registers : List Register) : List Register :=
  registers.insertionSort (fun a b => a.address ≤ b.address)

def endOf (r : Register) : ℕ := r.address+span r

/-- The current batch is never empty: its first register, the others in
reverse, and `currentEnd`. -/
structure Batch where
  first : Register
  others : List Register
  currentEnd : ℕ

def Batch.registers (b : Batch) : List Register := b.first::b.others.reverse

def Batch.start (r : Register) : Batch := ⟨r,[],endOf r⟩

def canBatch (gapTolerance : ℤ) (b : Batch) (r : Register) : Bool :=
  (!r.noBatch && !b.first.noBatch) && decide ((r.address : ℤ)-b.currentEnd ≤ gapTolerance) &&
    decide ((endOf r : ℤ)-b.first.address ≤ maxBatchSize)

def Batch.push (b : Batch) (r : Register) : Batch := ⟨b.first,r::b.others,endOf r⟩

def joinBatches (gapTolerance : ℤ) (b : Batch) : List Register → List (List Register)
  | [] => [b.registers]
  | r::rest =>
    if canBatch gapTolerance b r then joinBatches gapTolerance (b.push r) rest
    else b.registers::joinBatches gapTolerance (.start r) rest

def optimizeBatches (gapTolerance : ℤ) (registers : List Register) : List (List Register) :=
  match sortByAddress registers with
  | [] => []
  | r::rest => joinBatches gapTolerance (.start r) rest

def batchesOf (gapTolerance : ℤ) (registers : List Register) (code : FunctionCode) :
    List (List Register) :=
  optimizeBatches gapTolerance (registers.filter (fun r => r.functionCode = code))

def slice {α : Type} (data : List α) (offset count : ℕ) : List α := (data.drop offset).take count

def RawData.slice (raw : RawData) (offset count : ℕ) : RawData :=
  match raw with
  | .bits data => .bits (Modbus.slice data offset count)
  | .words data => .words (Modbus.slice data offset count)

def batchEnd (first : Register) (others : List Register) : ℕ :=
  endOf ((first::others).getLast (List.cons_ne_nil _ _))

def registerData (first : Register) (raw : RawData) (r : Register) : RawData :=
  raw.slice (r.address-first.address) (span r)

def readRegisterBatch (dev : Device) : List Register → Except ReadError (List (Register × Value))
  | [] => .ok []
  | first::others =>
    (readBatchRaw dev first.functionCode first.address
        (batchEnd first others-first.address)).bind (fun raw =>
      (first::others).mapM (fun r => (parseRaw r (registerData first raw r)).map (fun v => (r,v))))

/-- The values of a request, or two halves that are read apart; a register
alone is reported with its value or as bad. -/
def readBatchSmartFallback (dev : Device) :
    List Register → List (Register × Except ReadError Value)
  | [] => []
  | [r] => [(r,readRegister dev r)]
  | r::q::rest =>
    match readRegisterBatch dev (r::q::rest) with
    | .ok results => results.map (fun p => (p.1,.ok p.2))
    | .error _ =>
      readBatchSmartFallback dev ((r::q::rest).take ((r::q::rest).length/2))++
        readBatchSmartFallback dev ((r::q::rest).drop ((r::q::rest).length/2))
termination_by batch => batch.length
decreasing_by
  · simp only [List.length_take, List.length_cons]
    omega
  · simp only [List.length_drop, List.length_cons]
    omega

def reportBatch (dev : Device) : List Register → List (Register × Except ReadError Value)
  | [r] => [(r,readRegister dev r)]
  | batch =>
    match readRegisterBatch dev batch with
    | .ok results => results.map (fun p => (p.1,.ok p.2))
    | .error _ => readBatchSmartFallback dev batch

def isBitCode (code : FunctionCode) : Bool :=
  code = .readCoils || code = .readDiscreteInputs

def isWordCode (code : FunctionCode) : Bool :=
  code = .readHoldingRegisters || code = .readInputRegisters

def wordReach (r : Register) : ℕ :=
  match bufferOrder r, width r.dataType with
  | .ABCD, some n => n/2
  | .BADC, some n => n/2
  | _, _ => r.count

def reach (r : Register) : ℕ := if isBitCode r.functionCode then 1 else wordReach r

def parses (r : Register) : Bool :=
  if isBitCode r.functionCode then r.dataType = .boolean
  else if isWordCode r.functionCode then
    match width r.dataType with
    | some n => n ≤ 2*r.count
    | none => r.dataType = .string
  else false

/-- No value depends on words after the last register. A request for
registers of which one cannot be parsed gives no values. -/
def Covered : List Register → Prop
  | [] => True
  | first::others => (∀ r ∈ first::others, parses r = true) →
      ∀ r ∈ first::others, r.address+reach r ≤ batchEnd first others

instance Covered.decidable : (batch : List Register) → Decidable (Covered batch)
  | [] => .isTrue trivial
  | first::others =>
    inferInstanceAs (Decidable ((∀ r ∈ first::others, parses r = true) →
      ∀ r ∈ first::others, r.address+reach r ≤ batchEnd first others))

/-- The registers that are asked for together: a batch, and its halves if a
register of it cannot be parsed. -/
def requests : List Register → List (List Register)
  | [] => []
  | [_] => []
  | r::q::rest =>
    (r::q::rest)::(if ∀ x ∈ r::q::rest, parses x = true then []
      else requests ((r::q::rest).take ((r::q::rest).length/2))++
        requests ((r::q::rest).drop ((r::q::rest).length/2)))
termination_by batch => batch.length
decreasing_by
  · simp only [List.length_take, List.length_cons]
    omega
  · simp only [List.length_drop, List.length_cons]
    omega

theorem flatten_joinBatches (gapTolerance : ℤ) (b : Batch) (rest : List Register) :
    (joinBatches gapTolerance b rest).flatten = b.registers++rest := by
  induction rest generalizing b with
  | nil => simp [joinBatches]
  | cons r rest ih =>
    unfold joinBatches
    split
    · rw [ih]
      simp [Batch.registers, Batch.push]
    · rw [List.flatten_cons, ih]
      simp [Batch.registers, Batch.start]

theorem flatten_optimizeBatches (gapTolerance : ℤ) (registers : List Register) :
    (optimizeBatches gapTolerance registers).flatten = sortByAddress registers := by
  unfold optimizeBatches
  cases sortByAddress registers with
  | nil => rfl
  | cons r rest =>
    simp only
    rw [flatten_joinBatches]
    simp [Batch.registers, Batch.start]

theorem batch_sublist {gapTolerance : ℤ} {registers batch : List Register}
    (h : batch ∈ optimizeBatches gapTolerance registers) :
    batch.Sublist (sortByAddress registers) := by
  rw [← flatten_optimizeBatches gapTolerance registers]
  exact List.sublist_flatten_of_mem h

theorem batch_sorted {gapTolerance : ℤ} {registers batch : List Register}
    (h : batch ∈ optimizeBatches gapTolerance registers) :
    batch.Pairwise (fun a b => a.address ≤ b.address) :=
  List.Pairwise.sublist (batch_sublist h)
    (List.pairwise_insertionSort (fun a b : Register => a.address ≤ b.address) registers)

theorem batch_ascending {gapTolerance : ℤ} {registers : List Register} {first : Register}
    {others : List Register} (h : first::others ∈ optimizeBatches gapTolerance registers) :
    ∀ r ∈ first::others, first.address ≤ r.address := by
  intro r hr
  rcases List.mem_cons.mp hr with rfl | hr
  · exact le_rfl
  · exact (List.pairwise_cons.mp (batch_sorted h)).1 r hr

theorem batch_end {gapTolerance : ℤ} {registers : List Register} {first : Register}
    {others : List Register} (h : first::others ∈ optimizeBatches gapTolerance registers) :
    ∀ r ∈ first::others, r.address < batchEnd first others := by
  intro r hr
  have hle : r.address ≤ ((first::others).getLast (List.cons_ne_nil _ _)).address :=
    List.Pairwise.rel_getLast_of_rel_getLast_getLast (batch_sorted h) hr le_rfl
  have hpos := ((first::others).getLast (List.cons_ne_nil _ _)).count_pos
  unfold batchEnd endOf
  rw [span_eq]
  omega

theorem batch_code {gapTolerance : ℤ} {registers batch : List Register} {code : FunctionCode}
    (h : batch ∈ batchesOf gapTolerance registers code) : ∀ r ∈ batch, r.functionCode = code := by
  intro r hr
  have hm := (batch_sublist h).subset hr
  have hf := (List.mem_insertionSort _).mp hm
  exact of_decide_eq_true (List.mem_filter.mp hf).2

theorem getElem?_fetch {α : Type} (memory : ℕ → α) (address count k : ℕ) :
    (fetch memory address count)[k]? = if k < count then some (memory (address+k)) else none := by
  unfold fetch
  rw [List.getElem?_map]
  by_cases hk : k < count
  · rw [List.getElem?_range hk, if_pos hk]
    rfl
  · rw [List.getElem?_eq_none (by simpa using hk), if_neg hk]
    rfl

theorem getElem?_slice {α : Type} (data : List α) (offset count k : ℕ) :
    (slice data offset count)[k]? = if k < count then data[offset+k]? else none := by
  unfold slice
  rw [List.getElem?_take, List.getElem?_drop]

/-- Cut out of a batch, a register has its own words up to the end of the
batch and nothing after it. -/
theorem getElem?_slice_fetch {α : Type} (memory : ℕ → α) {start address : ℕ} (last count k : ℕ)
    (h : start ≤ address) :
    (slice (fetch memory start (last-start)) (address-start) count)[k]? =
      if k < count ∧ address+k < last then some (memory (address+k)) else none := by
  rw [getElem?_slice, getElem?_fetch]
  have hadd : start+(address-start+k) = address+k := by omega
  by_cases hk : k < count
  · by_cases hl : address+k < last
    · rw [if_pos hk, if_pos (by omega), if_pos ⟨hk,hl⟩, hadd]
    · rw [if_pos hk, if_neg (by omega), if_neg (fun h => hl h.2)]
  · rw [if_neg hk, if_neg (fun h => hk h.1)]

end Iotistica.Modbus
