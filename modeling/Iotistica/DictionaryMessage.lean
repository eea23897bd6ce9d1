import Iotistica.DictionaryAgent
import Iotistica.DictionaryCloud
import Iotistica.JsSort
import Mathlib.Data.Rat.Defs

/-!
# Compacted messages

The agent flattens an object into tuples of an index and a value, with a
frame around each array; the cloud looks the index up and writes the value
back along the path. Strings of some fields travel as enum codes. Objects
are lists of fields in the order the runtime enumerates them. Tables and
indices are as they stand when the message is compacted; how they are
learned is left out.
-/

set_option autoImplicit false

namespace Iotistica.DictionaryCodec
open Iotistica Iotistica.JsText Iotistica.AgentDictionary Iotistica.CloudDictionary

inductive Prim where
  | null
  | bool (b : Bool)
  | num (q : ℚ)
  | str (s : String)
  deriving DecidableEq

inductive Json where
  | prim (p : Prim)
  | arr (items : List Json)
  | obj (fields : List (String × Json))

abbrev Members := List (String × Json)

inductive Pair where
  | leaf (index : ℤ) (value : Json)
  | frame (key : String) (elements : List (List Pair))

abbrev EnumTable := OrderedMap String ℕ

/-- `unit` is there once the table is frozen; metrics and devices have a
table for each protocol. -/
structure EnumTables where
  unit : Option EnumTable
  qualityCode : EnumTable
  metrics : OrderedMap String EnumTable
  devices : OrderedMap String EnumTable

def qualityEnum : EnumTable := ⟨[("GOOD",1),("BAD",2),("UNCERTAIN",3),("NOT_CONNECTED",4)],by decide⟩

def inheritedNames : List String :=
  ["constructor","toString","valueOf","hasOwnProperty","isPrototypeOf","propertyIsEnumerable",
   "toLocaleString","__defineGetter__","__defineSetter__","__lookupGetter__","__lookupSetter__",
   "__proto__"]

def tableGet (t : EnumTable) (value : String) : Option Json :=
  match t.get? value with
  | some code => some (.prim (.num code))
  | none =>
    -- a function travels as null, the prototype as an empty object
    if value = "__proto__" then some (.obj [])
    else if value ∈ inheritedNames then some (.prim .null)
    else none

def reverseEnum (t : EnumTable) (q : ℚ) : Option String :=
  ((t.entries.filter (fun e => (e.2 : ℚ) = q)).getLast?.map Prod.fst).filter (fun name => name ≠ "")

def reverseAny (tables : OrderedMap String EnumTable) (q : ℚ) : Option String :=
  tables.entries.findSome? (fun e => reverseEnum e.2 q)

structure Encoder where
  index : String → ℕ
  tables : EnumTables
  protocol : Option String

def Encoder.getIndex (e : Encoder) (path : String) : ℤ :=
  if shouldSkipField path then -1 else e.index path

def fullKey (pre key : String) : String := if pre = "" then key else pre++"."++key

/-- The code that `encodeEnumValue` puts in the place of a string. -/
def enumCode (tables : EnumTables) (path value : String) : Option Json :=
  if 16 < (JsSort.utf16 value).length then none
  else
    match inferDomain path with
    | .quality => tableGet qualityEnum value
    | .unit => tables.unit.bind (fun t => tableGet t value)
    | _ => none

def protocolTable (tables : OrderedMap String EnumTable) (protocol : Option String) :
    Option (Option EnumTable) :=
  match protocol with
  | some name => if name = "" then none else some (tables.get? name)
  | none => none

/-- The code a leaf travels as, if it does not travel as it is. -/
def leafCode (e : Encoder) (path key : String) (p : Prim) : Option Json :=
  match p with
  | .str value =>
    match (if key = "metric" then protocolTable e.tables.metrics e.protocol
      else if key = "deviceName" then protocolTable e.tables.devices e.protocol
      else if key = "qualityCode" then some (some e.tables.qualityCode)
      else none) with
    | some table => table.bind (fun t => tableGet t value)
    | none => enumCode e.tables path value
  | _ => none

def leafPairs (e : Encoder) (pre key : String) (p : Prim) : List Pair :=
  let path := fullKey pre key
  if e.getIndex path = -1 then []
  else [.leaf (e.getIndex path) ((leafCode e path key p).getD (.prim p))]

mutual
/-- `compactWithDictionary` on an object, arrays in opaque mode. -/
def compactFields (e : Encoder) (pre : String) : Members → Option (List Pair)
  | [] => some []
  | (key,value)::rest =>
    (compactValue e pre key value).bind (fun pairs =>
      (compactFields e pre rest).map (fun others => pairs++others))
termination_by structural fields => fields

def compactValue (e : Encoder) (pre key : String) : Json → Option (List Pair)
  | .prim p => some (leafPairs e pre key p)
  | .arr items =>
    (compactItems e (fullKey pre key++"[]") items).map (fun elements => [.frame key elements])
  | .obj fields => compactFields e (fullKey pre key) fields
termination_by structural value => value

/-- Elements of an array; an array among them throws. -/
def compactItems (e : Encoder) (pre : String) : List Json → Option (List (List Pair))
  | [] => some []
  | .prim p::rest =>
    (compactItems e pre rest).map (fun others => [.leaf (e.getIndex pre) (.prim p)]::others)
  | .obj fields::rest =>
    (compactFields e pre fields).bind (fun pairs =>
      (compactItems e pre rest).map (fun others => pairs::others))
  | .arr _::_ => none
termination_by structural items => items
end

def compactWithDictionary (e : Encoder) (m : Members) : Option (List Pair) := compactFields e "" m

structure Decoder where
  dictionary : FieldMap
  tables : EnumTables

def afterMarker : List Char → Option (List Char)
  | [] => none
  | c::cs =>
    match afterMarker cs with
    | some rest => some rest
    | none => if "[].".toList.isPrefixOf (c::cs) then some (cs.drop 2) else none

def relativeFieldName (name : String) : String :=
  match afterMarker name.toList with
  | some rest => String.ofList rest
  | none => name

def isSeparator (c : Char) : Bool := c == '.' || c == '[' || c == ']'

def splitPath : List Char → List (List Char)
  | [] => [[]]
  | c::cs =>
    if isSeparator c then []::splitPath cs
    else
      match splitPath cs with
      | [] => [[c]]
      | part::parts => (c::part)::parts

def pathParts (path : String) : List String :=
  ((splitPath path.toList).filter (fun part => part ≠ [])).map String.ofList

def reverseCode (tables : EnumTables) (name : String) (q : ℚ) : Option String :=
  if name = "metric" || endsWith name ".metric" then reverseAny tables.metrics q
  else if name = "deviceName" || endsWith name ".deviceName" then reverseAny tables.devices q
  else if name = "qualityCode" || endsWith name ".qualityCode" then
    reverseEnum tables.qualityCode q
  else none

def decodeEnumValue (tables : EnumTables) (name : String) (value : Json) : Json :=
  match value with
  | .prim (.num q) =>
    match reverseCode tables name q with
    | some text => .prim (.str text)
    | none => value
  | _ => value

def setMember (key : String) (value : Json) : Members → Members
  | [] => [(key,value)]
  | f::rest => if f.1 = key then (key,value)::rest else f::setMember key value rest

def assignMember (fields : Members) (key : String) (value : Json) : Members :=
  if key = "__proto__" then fields else setMember key value fields

def truthy : Prim → Bool
  | .null => false
  | .bool b => b
  | .num q => decide (q ≠ 0)
  | .str s => decide (s ≠ "")

def allDigits (part : String) : Bool := part.toList ≠ [] && part.toList.all Char.isDigit

def arrayIndex (part : String) : Option ℕ :=
  match part.toNat? with
  | some n => if toString n = part then some n else none
  | none => none

def setElement (items : List Json) (n : ℕ) (value : Json) : List Json :=
  (items++List.replicate (n+1-items.length) (Json.prim .null)).set n value

mutual
/-- `setNestedValue`. A missing name on the way becomes an object, or an
array before an index; a write through an inherited name lands on an
object that all share and is lost here, one through a value throws. -/
def setNestedValue (fields : Members) (value : Json) : List String → Option Members
  | [] => some fields
  | [part] => some (assignMember fields part value)
  | part::next::rest =>
    match fields.lookup part with
    | some (.obj inner) =>
      (setNestedValue inner value (next::rest)).map (fun o => assignMember fields part (.obj o))
    | some (.arr items) =>
      (setArrayValue items value (next::rest)).map (fun o => assignMember fields part (.arr o))
    | some (.prim p) =>
      if truthy p then none
      else if allDigits next then
        (setArrayValue [] value (next::rest)).map (fun o => assignMember fields part (.arr o))
      else (setNestedValue [] value (next::rest)).map (fun o => assignMember fields part (.obj o))
    | none =>
      if part ∈ inheritedNames then some fields
      else if allDigits next then
        (setArrayValue [] value (next::rest)).map (fun o => assignMember fields part (.arr o))
      else (setNestedValue [] value (next::rest)).map (fun o => assignMember fields part (.obj o))
termination_by structural parts => parts

def setArrayValue (items : List Json) (value : Json) : List String → Option (List Json)
  | [] => some items
  | [part] =>
    match arrayIndex part with
    | some n => some (setElement items n value)
    | none => some items
  | part::next::rest =>
    match arrayIndex part with
    | none => some items
    | some n =>
      match items[n]? with
      | some (.obj inner) =>
        (setNestedValue inner value (next::rest)).map (fun o => setElement items n (.obj o))
      | some (.arr inner) =>
        (setArrayValue inner value (next::rest)).map (fun o => setElement items n (.arr o))
      | some (.prim p) =>
        if truthy p then none
        else if allDigits next then
          (setArrayValue [] value (next::rest)).map (fun o => setElement items n (.arr o))
        else (setNestedValue [] value (next::rest)).map (fun o => setElement items n (.obj o))
      | none =>
        if allDigits next then
          (setArrayValue [] value (next::rest)).map (fun o => setElement items n (.arr o))
        else (setNestedValue [] value (next::rest)).map (fun o => setElement items n (.obj o))
termination_by structural parts => parts
end

def expandLeaf (d : Decoder) (expanded : Members) (index : ℤ) (value : Json) : Option Members :=
  match fieldName d.dictionary index with
  | none => some expanded
  | some name =>
    let relative := relativeFieldName name
    setNestedValue expanded (decodeEnumValue d.tables relative value) (pathParts relative)

mutual
def expandPair (d : Decoder) (expanded : Members) : Pair → Option Members
  | .leaf index value => expandLeaf d expanded index value
  | .frame key elements =>
    (expandElements d elements).map (fun items => assignMember expanded key (.arr items))
termination_by structural pair => pair

def expandTuples (d : Decoder) (expanded : Members) : List Pair → Option Members
  | [] => some expanded
  | pair::rest => (expandPair d expanded pair).bind (fun expanded => expandTuples d expanded rest)
termination_by structural pairs => pairs

def expandElements (d : Decoder) : List (List Pair) → Option (List Json)
  | [] => some []
  | pairs::rest =>
    (expandTuples d [] pairs).bind (fun fields =>
      (expandElements d rest).map (fun items => .obj fields::items))
termination_by structural elements => elements
end

/-- A message that is one frame under `$root` is an array. -/
def expandMessage (d : Decoder) (pairs : List Pair) : Option Json :=
  match pairs with
  | [.frame key elements] =>
    if key = "$root" then (expandElements d elements).map .arr
    else (expandTuples d [] pairs).map .obj
  | _ => (expandTuples d [] pairs).map .obj

end Iotistica.DictionaryCodec
