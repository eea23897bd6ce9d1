import Iotistica.OrderedMap
import Iotistica.UniqueTable
import Mathlib.Data.List.Sort

/-!
# Cloud side of the field dictionary

The field map of a device is written to Redis first and to PostgreSQL after
it, and served from Redis unless Redis has lost it. A full sync replaces
the rows, a delta inserts the rows whose name is not there. A statement that
meets a taken index, or names the device by a column its table does not have,
changes nothing, and then Redis has already been written. The content hash
and the enum tables are read by no function here.
-/

set_option autoImplicit false

namespace Iotistica.CloudDictionary
open Iotistica

abbrev FieldMap := OrderedMap ℕ String

structure EntryRow where
  fieldName : String
  fieldIndex : ℕ
  versionAdded : ℕ
  deriving DecidableEq

abbrev EntryRows := UniqueTable EntryRow EntryRow.fieldName EntryRow.fieldIndex

/-- The column with the device, in `dictionary_entries` and in
`dictionary_metadata`. The other columns are those the statements name. -/
structure Schema where
  entriesKey : String
  metadataKey : String

def migrated : Schema := ⟨"device_uuid","device_uuid"⟩

def agentColumn : String := "agent_uuid"

structure Cloud where
  dict : Option FieldMap
  version : Option ℕ
  entries : EntryRows
  metadata : Option ℕ
  schema : Schema

def Cloud.created (schema : Schema) : Cloud := ⟨none,none,.empty,none,schema⟩

def Cloud.fresh : Cloud := .created migrated

def loadDictionary (t : EntryRows) : FieldMap :=
  OrderedMap.empty.assignAll
    ((t.rows.insertionSort (fun a b => a.fieldIndex ≤ b.fieldIndex)).map
      (fun r => (r.fieldIndex,r.fieldName)))

def entryRows (m : FieldMap) (version : ℕ) : List EntryRow :=
  m.entries.map (fun e => ⟨e.2,e.1,version⟩)

/-- `fields` of a full sync: names in the order of their indices, or the
legacy form with an index for each name. -/
inductive Fields where
  | names (fields : List String)
  | indexed (fields : List (String × ℕ))

def Fields.pairs : Fields → List (ℕ × String)
  | .names fields => fields.zipIdx.map (fun f => (f.2,f.1))
  | .indexed fields => fields.map (fun f => (f.2,f.1))

def fieldMap (fields : Fields) : FieldMap := OrderedMap.empty.assignAll fields.pairs

/-- `DELETE` is a statement of its own: when the insertion fails the old
rows are gone and the metadata stays. -/
def storeEntries (c : Cloud) (m : FieldMap) (version : ℕ) : Cloud :=
  if c.schema.entriesKey ≠ agentColumn then c
  else
    match (UniqueTable.empty : EntryRows).insertAll (entryRows m version) with
    | none => { c with entries := .empty }
    | some t =>
      if c.schema.metadataKey ≠ agentColumn then { c with entries := t }
      else { c with entries := t, metadata := some version }

def storeDictionary (c : Cloud) (fields : Fields) (version : ℕ) : Cloud :=
  storeEntries { c with dict := some (fieldMap fields), version := some version }
    (fieldMap fields) version

/-- Redis first; on a miss the rows, which then warm Redis. A statement that
fails is caught, and the answer is that there is no dictionary. -/
def getDictionary (c : Cloud) : Option FieldMap × Cloud :=
  match c.dict with
  | some m => (some m,c)
  | none =>
    if c.schema.entriesKey ≠ agentColumn then (none,c)
    else
      let m := loadDictionary c.entries
      if m.size = 0 then (none,c)
      else if c.schema.metadataKey ≠ agentColumn then (none,c)
      else
        match c.metadata with
        | some v => (some m,{ c with dict := some m, version := some v })
        | none => (some m,c)

/-- `dictionary[index]`, where the empty name is as good as none. -/
def fieldName (m : FieldMap) (index : ℤ) : Option String :=
  if index < 0 then none else (m.get? index.toNat).filter (fun name => name ≠ "")

/-- `failed` is a statement's error, which the call throws. -/
inductive DeltaReply where
  | missing
  | violation
  | failed
  | accepted
  deriving DecidableEq

def violates (current : Option ℕ) (version : ℕ) : Bool :=
  match current with
  | some v => decide (version ≤ v)
  | none => false

def appendFields (m : FieldMap) : ℕ → List String → FieldMap
  | _, [] => m
  | i, name::rest => appendFields (m.set i name) (i+1) rest

def deltaRows (version : ℕ) : ℕ → List String → List EntryRow
  | _, [] => []
  | i, name::rest => ⟨name,i,version⟩::deltaRows version (i+1) rest

def addDeltaFields (c : Cloud) (base : ℕ) (newFields : List String) (version : ℕ) :
    Cloud × DeltaReply :=
  if c.schema.entriesKey ≠ agentColumn then (c,.failed)
  else
    match c.entries.insertNewAll (deltaRows version base newFields) with
    | none => (c,.failed)
    | some t =>
      if c.schema.metadataKey ≠ agentColumn then ({ c with entries := t },.failed)
      else ({ c with entries := t, metadata := some version },.accepted)

def applyDelta (c : Cloud) (newFields : List String) (version : ℕ) : Cloud × DeltaReply :=
  match getDictionary c with
  | (none,c) => (c,.missing)
  | (some m,c) =>
    if violates c.version version then (c,.violation)
    else
      addDeltaFields
        { c with dict := some (appendFields m m.size newFields), version := some version }
        m.size newFields version

def Agree (m : FieldMap) (t : EntryRows) : Prop :=
  ∀ i name, m.get? i = some name ↔ ∃ r ∈ t.rows, r.fieldIndex = i ∧ r.fieldName = name

structure Schema.Usable (schema : Schema) : Prop where
  entries : schema.entriesKey = agentColumn
  metadata : schema.metadataKey = agentColumn

theorem storeEntries_usable {c : Cloud} (h : c.schema.Usable) (m : FieldMap) (version : ℕ) :
    storeEntries c m version =
      match (UniqueTable.empty : EntryRows).insertAll (entryRows m version) with
      | none => { c with entries := .empty }
      | some t => { c with entries := t, metadata := some version } := by
  simp only [storeEntries, h.entries, h.metadata, ne_eq, not_true_eq_false, if_false]

theorem getDictionary_usable {c : Cloud} (h : c.schema.Usable) :
    getDictionary c =
      match c.dict with
      | some m => (some m,c)
      | none =>
        let m := loadDictionary c.entries
        if m.size = 0 then (none,c)
        else
          match c.metadata with
          | some v => (some m,{ c with dict := some m, version := some v })
          | none => (some m,c) := by
  simp only [getDictionary, h.entries, h.metadata, ne_eq, not_true_eq_false, if_false]

theorem addDeltaFields_usable {c : Cloud} (h : c.schema.Usable) (base : ℕ)
    (newFields : List String) (version : ℕ) :
    addDeltaFields c base newFields version =
      match c.entries.insertNewAll (deltaRows version base newFields) with
      | none => (c,.failed)
      | some t => ({ c with entries := t, metadata := some version },.accepted) := by
  simp only [addDeltaFields, h.entries, h.metadata, ne_eq, not_true_eq_false, if_false]

theorem getDictionary_unusable {c : Cloud} (h : ¬c.schema.Usable) :
    getDictionary c = (c.dict,c) := by
  unfold getDictionary
  cases hd : c.dict with
  | some m => rfl
  | none =>
    simp only
    split
    · rfl
    · rename_i hentries
      split
      · rfl
      · have hmetadata : c.schema.metadataKey ≠ agentColumn :=
          fun heq => h ⟨not_not.mp hentries,heq⟩
        rw [if_pos hmetadata]

theorem storeEntries_others (c : Cloud) (m : FieldMap) (version : ℕ) :
    (storeEntries c m version).dict = c.dict ∧ (storeEntries c m version).version = c.version ∧
      (storeEntries c m version).schema = c.schema := by
  unfold storeEntries
  split
  · exact ⟨rfl,rfl,rfl⟩
  · split
    · exact ⟨rfl,rfl,rfl⟩
    · split <;> exact ⟨rfl,rfl,rfl⟩

/-- Redis holds the dictionary whatever becomes of the statements. -/
theorem storeDictionary_redis (c : Cloud) (fields : Fields) (version : ℕ) :
    (storeDictionary c fields version).dict = some (fieldMap fields) ∧
      (storeDictionary c fields version).version = some version := by
  obtain ⟨hdict,hversion,-⟩ := storeEntries_others
    { c with dict := some (fieldMap fields), version := some version } (fieldMap fields) version
  exact ⟨hdict,hversion⟩

theorem getDictionary_schema (c : Cloud) : (getDictionary c).2.schema = c.schema := by
  unfold getDictionary
  cases c.dict with
  | some m => rfl
  | none =>
    dsimp only
    split_ifs
    · rfl
    · rfl
    · rfl
    · cases c.metadata <;> rfl

theorem addDeltaFields_schema (c : Cloud) (base : ℕ) (newFields : List String) (version : ℕ) :
    (addDeltaFields c base newFields version).1.schema = c.schema := by
  unfold addDeltaFields
  split
  · rfl
  · split
    · rfl
    · split <;> rfl

theorem applyDelta_schema (c : Cloud) (newFields : List String) (version : ℕ) :
    (applyDelta c newFields version).1.schema = c.schema := by
  have hread := getDictionary_schema c
  unfold applyDelta
  generalize getDictionary c = g at hread ⊢
  obtain ⟨dict,c₁⟩ := g
  cases dict with
  | none => exact hread
  | some m =>
    dsimp only
    split
    · exact hread
    · exact (addDeltaFields_schema _ _ _ _).trans hread

theorem entries_loadDictionary (t : EntryRows) :
    (loadDictionary t).entries =
      (t.rows.insertionSort (fun a b => a.fieldIndex ≤ b.fieldIndex)).map
        (fun r => (r.fieldIndex,r.fieldName)) := by
  unfold loadDictionary
  rw [OrderedMap.entries_assignAll]
  · rfl
  · rw [List.map_map]
    exact ((List.perm_insertionSort _ t.rows).map EntryRow.fieldIndex).nodup_iff.mpr t.slots_nodup
  · intro j _
    simp

theorem agree_loadDictionary (t : EntryRows) : Agree (loadDictionary t) t := by
  intro i name
  rw [OrderedMap.get?_eq_some_iff, entries_loadDictionary, List.mem_map]
  simp only [List.mem_insertionSort, Prod.mk.injEq]

theorem size_loadDictionary (t : EntryRows) : (loadDictionary t).size = t.rows.length := by
  unfold OrderedMap.size
  rw [entries_loadDictionary, List.length_map, List.length_insertionSort]

theorem Agree.get?_eq {m m' : FieldMap} {t : EntryRows} (h : Agree m t) (h' : Agree m' t) :
    m.get? = m'.get? := by
  funext i
  apply Option.ext
  intro name
  exact (h i name).trans (h' i name).symm

end Iotistica.CloudDictionary
