import Mathlib.Data.Rat.Floor
import Iotistica.OrderedMap

/-!
# Fields of a message batch

`extractSchema` walks the parsed messages of a batch and collects the names
and value types of the fields it meets, up to the limits of the options. An
object is the list of its entries in the order in which the runtime
enumerates them.
-/

set_option autoImplicit false

namespace Iotistica.DriftSchema
open Iotistica

inductive Json where
  | null
  | bool (b : Bool)
  | num (q : ℚ)
  | str (s : String)
  | arr (items : List Json)
  | obj (entries : List (String × Json))

inductive ValueType where
  | number
  | string
  | boolean
  | object
  | array
  | null
  deriving DecidableEq, Repr

structure DriftDetectorOptions where
  enabled : Bool := true
  warmupBatches : ℤ := 20
  minFieldPresenceRatio : ℚ := 1/2
  consecutiveMissingThreshold : ℤ := 10
  alertCooldownMs : ℤ := 30*60*1000
  adaptivePromotionBatches : ℤ := 50
  adaptivePromotionRatio : ℚ := 3/5
  adaptiveRetireBatches : ℤ := 250
  maxTrackedFields : ℕ := 1000
  maxTraversalDepth : ℤ := 5
  maxFieldsPerBatch : ℤ := 500
  minTypeDominanceRatio : ℚ := 3/20
  checkIntervalBatches : ℤ := 1

def reservedGenericKeys : List String :=
  ["timestamp","ts","time","devicename","deviceid","device_id","device_uuid","deviceuuid",
    "quality","unit","status","state","msgid","device","protocol"]

/-- White space as the runtime's `trim` and `\s` understand it. -/
def isSpace (c : Char) : Bool :=
  let n := c.toNat
  (9 ≤ n && n ≤ 13) || n == 0x20 || n == 0xA0 || n == 0x1680 || (0x2000 ≤ n && n ≤ 0x200A) ||
    n == 0x2028 || n == 0x2029 || n == 0x202F || n == 0x205F || n == 0x3000 || n == 0xFEFF

def trim (cs : List Char) : List Char :=
  ((cs.dropWhile isSpace).reverse.dropWhile isSpace).reverse

def isLowerOrDigit (c : Char) : Bool := c.isLower || c.isDigit

def splitCamel : List Char → List Char
  | a::b::cs =>
    if isLowerOrDigit a && b.isUpper then a :: '_' :: splitCamel (b::cs) else a::splitCamel (b::cs)
  | cs => cs

def underscoreRuns (p : Char → Bool) : Bool → List Char → List Char
  | _, [] => []
  | inRun, c::cs =>
    if p c then
      if inRun then underscoreRuns p true cs else '_' :: underscoreRuns p true cs
    else c::underscoreRuns p false cs

def isFieldChar (c : Char) : Bool :=
  c.isLower || c.isUpper || c.isDigit || c == '_' || c == '.' || c == ':'

def normalizeFieldName (value : String) : String :=
  let camel := splitCamel (trim value.toList)
  let spaced := underscoreRuns (fun c => isSpace c || c == '-') false camel
  let joined := underscoreRuns (fun c => c == '_') false spaced
  String.ofList ((joined.filter isFieldChar).map Char.toLower)

def toFieldName (input : Option Json) : Option String :=
  match input with
  | some (.str s) =>
    let trimmed := trim s.toList
    if trimmed.isEmpty then none else some (String.ofList trimmed)
  | _ => none

def valueTypeOf (value : Json) : ValueType :=
  match value with
  | .null => .null
  | .arr _ => .array
  | .num _ => .number
  | .str _ => .string
  | .bool _ => .boolean
  | .obj _ => .object

def recordName (entries : List (String × Json)) : Option String :=
  (toFieldName (entries.lookup "metric")).or
    ((toFieldName (entries.lookup "registerName")).or (toFieldName (entries.lookup "name")))

abbrev KeySet := OrderedMap String Unit

structure ExtractedSchema where
  fields : KeySet
  typesByField : OrderedMap String (OrderedMap ValueType Unit)

def canTrackInMap {β : Type} (maxTrackedFields : ℕ) (m : OrderedMap String β) (field : String) :
    Bool :=
  m.has field || decide (m.size < maxTrackedFields)

variable (o : DriftDetectorOptions)

def batchFull (ex : ExtractedSchema) : Bool := decide (o.maxFieldsPerBatch ≤ ex.fields.size)

/-- A missing value and `null` name the field without giving it a type. -/
def addField (ex : ExtractedSchema) (field : String) (value : Option Json) : ExtractedSchema :=
  if batchFull o ex then ex
  else if !ex.fields.has field && decide (o.maxTrackedFields ≤ ex.fields.size) then ex
  else
    let named := { ex with fields := ex.fields.add field }
    match value with
    | none => named
    | some .null => named
    | some v =>
      if !canTrackInMap o.maxTrackedFields named.typesByField field then named
      else
        let types := (named.typesByField.get? field).getD .empty
        { named with typesByField := named.typesByField.set field (types.add (valueTypeOf v)) }

def addReading (ex : ExtractedSchema) (reading : Json) : ExtractedSchema :=
  match reading with
  | .obj rr =>
    match recordName rr with
    | none => ex
    | some raw =>
      let normalized := normalizeFieldName raw
      if normalized = "" then ex else addField o ex ("reading:"++normalized) (rr.lookup "value")
  | _ => ex

def addReadings (ex : ExtractedSchema) (record : List (String × Json)) : ExtractedSchema :=
  match record.lookup "readings" with
  | some (.arr readings) => readings.foldl (addReading o) ex
  | _ => ex

def handledKeys (record : List (String × Json)) : List String :=
  (match record.lookup "readings" with
    | some (.arr _) => ["readings"]
    | _ => []) ++
  (if (recordName record).isSome then ["metric","register_name","name","value"] else [])

def scopedKey (scope key : String) : String := if scope = "" then key else scope++"."++key

mutual

def traverse (value : Json) (scope : String) (depth : ℤ) (ex : ExtractedSchema) :
    ExtractedSchema :=
  if decide (o.maxTraversalDepth < depth) || batchFull o ex then ex
  else
    match value with
    | .arr items => traverseItems items scope depth ex
    | .obj record =>
      traverseEntries record (handledKeys record) scope depth
        (addReading o (addReadings o ex record) (.obj record))
    | _ => ex

def traverseItems (items : List Json) (scope : String) (depth : ℤ) (ex : ExtractedSchema) :
    ExtractedSchema :=
  match items with
  | [] => ex
  | entry::items =>
    let next := traverse entry scope (depth+1) ex
    if batchFull o next then next else traverseItems items scope depth next

def traverseEntries (entries : List (String × Json)) (handled : List String) (scope : String)
    (depth : ℤ) (ex : ExtractedSchema) : ExtractedSchema :=
  match entries with
  | [] => ex
  | (rawKey,rawValue)::entries =>
    let key := normalizeFieldName rawKey
    if key = "" || reservedGenericKeys.contains key || handled.contains key then
      traverseEntries entries handled scope depth ex
    else
      let next := match rawValue with
        | .num q => addField o ex ("key:"++scopedKey scope key) (some (.num q))
        | .bool b => addField o ex ("key:"++scopedKey scope key) (some (.bool b))
        | .arr items => traverse (.arr items) (scopedKey scope key) (depth+1) ex
        | .obj record => traverse (.obj record) (scopedKey scope key) (depth+1) ex
        | _ => ex
      traverseEntries entries handled scope depth next

end

def extractMessages (messages : List Json) (ex : ExtractedSchema) : ExtractedSchema :=
  match messages with
  | [] => ex
  | message::messages =>
    let next := traverse o message "" 0 ex
    if batchFull o next then next else extractMessages messages next

def extractSchema (messages : List Json) : ExtractedSchema :=
  extractMessages o messages ⟨.empty,.empty⟩

end Iotistica.DriftSchema
