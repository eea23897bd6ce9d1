import Iotistica.StreamFormat

/-!
# Producer and consumer of the device stream

A batch written as JSON text comes back from both readers as it was queued.
A compressed entry is written without its payload, so neither reader can
decode it; a message that did carry the payload would resolve to one entry
for each element of its document.
-/

set_option autoImplicit false

namespace Iotistica.StreamFormat
open Iotistica.ByteText Iotistica.JsonText

theorem proper_toValue (e : DeviceDataEntry) : Proper e.toValue := by
  have hdata := e.data_proper
  cases hm : e.metadata with
  | none =>
    have hkeys : ["deviceUuid","deviceName","timestamp","data"].Nodup := by decide
    simp only [DeviceDataEntry.toValue, hm, Proper]
    exact ⟨hkeys,trivial,trivial,trivial,hdata,trivial⟩
  | some m =>
    have hmeta := e.metadata_proper m (by simp [hm])
    have hkeys : ["deviceUuid","deviceName","timestamp","data","metadata"].Nodup := by decide
    simp only [DeviceDataEntry.toValue, hm, Proper]
    exact ⟨hkeys,trivial,trivial,trivial,hdata,hmeta,trivial⟩

theorem properItems_map (l : List DeviceDataEntry) :
    ProperItems (l.map DeviceDataEntry.toValue) := by
  induction l with
  | nil => trivial
  | cons e l ih => exact ⟨proper_toValue e,ih⟩

def batchText (l : List DeviceDataEntry) : String :=
  stringify (.arr (l.map DeviceDataEntry.toValue))

def batchEntry (id : String) (l : List DeviceDataEntry) : RedisDeviceEntry :=
  ⟨id,.raw (batchText l) (some "unknown") (some "unknown"),none⟩

theorem parseMessage_batch (origin id : String) (l : List DeviceDataEntry) :
    parseMessage origin (id,["data",batchText l]) = .ok (batchEntry id l) := by
  have hne : nonEmpty (some (batchText l)) = some (batchText l) := by
    simp [nonEmpty, batchText, stringify_ne_empty]
  simp only [parseMessage, parseStreamFields, setFields, setField, noFields, hne, batchEntry]
  rfl

theorem resolve_batch (rt : Runtime) (now id : String) (l : List DeviceDataEntry) :
    resolveEntryData rt now (batchEntry id l) = .ok (l.map DeviceDataEntry.toValue) := by
  have hparse : parse (batchText l) = some (.arr (l.map DeviceDataEntry.toValue)) :=
    parse_stringify (properItems_map l)
  simp only [resolveEntryData, batchEntry, hparse, elements]

def payloadOf (rt : Runtime) (contentEncoding : String) (document : Value) : Bytes :=
  match compressionOf (some contentEncoding) with
  | some c => rt.compress c (utf8 (stringify document))
  | none => utf8 (stringify document)

structure CompressedDocument (rt : Runtime) where
  entry : CompressedDeviceEntry
  document : Value
  proper : Proper document
  payload_eq : entry.compressedPayload = payloadOf rt entry.contentEncoding document

def metadataFields (entry : CompressedDeviceEntry) : List String :=
  ["compressed","1","deviceUuid",entry.deviceUuid,"deviceName",entry.deviceName,
    "batchId",entry.batchId,"encoding",entry.contentEncoding,"contentType",entry.contentType,
    "payloadPointer",entry.deviceUuid++"/"++entry.batchId,
    "payloadSize",entry.compressedPayload.length.repr]

theorem parseMessage_metadata (origin id : String) (entry : CompressedDeviceEntry) :
    ∃ e, parseMessage origin (id,metadataFields entry) = .error e := ⟨_,rfl⟩

def carriedEntry (id : String) (entry : CompressedDeviceEntry) : RedisDeviceEntry :=
  ⟨id,.compressed (some entry.deviceUuid) (some entry.deviceName) (some entry.batchId)
    entry.compressedPayload (some entry.contentEncoding) (some entry.contentType),none⟩

def Carries (document : Value) (out : List Value) : Prop :=
  List.Forall₂ (fun reading v => member v "data" = some (readingData reading)) (elements document) out

/-- The members of `entryOf` that are defined. -/
def definedMembers (ms : List (String × Option Value)) : Members :=
  ms.filterMap fun m => m.2.map fun v => (m.1,v)

theorem lookup_defined_ne {k key : String} (h : key ≠ k) (v : Option Value)
    (ms : List (String × Option Value)) :
    (definedMembers ((key,v) :: ms)).lookup k = (definedMembers ms).lookup k := by
  have hb : (k == key) = false := by simpa using fun h' => h h'.symm
  cases v with
  | none => rfl
  | some v => simp [definedMembers, List.lookup_cons, hb]

theorem lookup_defined_self (k : String) (v : Value) (ms : List (String × Option Value)) :
    (definedMembers ((k,some v) :: ms)).lookup k = some v := by
  simp [definedMembers]

theorem member_data_entryOf (now : String) (deviceUuid deviceName : Option String)
    (reading : Value) :
    member (entryOf now deviceUuid deviceName reading) "data" = some (readingData reading) := by
  show (definedMembers _).lookup "data" = _
  rw [lookup_defined_ne (by decide), lookup_defined_ne (by decide),
    lookup_defined_ne (by decide), lookup_defined_self]

theorem toStringUtf8_utf8 (rt : Runtime) (s : String) : toStringUtf8 rt (utf8 s) = s := by
  have hbytes : (⟨(utf8 s).toArray⟩ : ByteArray) = s.toByteArray := by
    simp [utf8]
  unfold toStringUtf8
  rw [hbytes, String.fromUTF8?, dif_pos s.isValidUTF8]
  rfl

theorem decompress_document (rt : Runtime) (now : String) (c : CompressedDocument rt)
    (deviceUuid deviceName : Option String)
    (hread : ∀ r ∈ elements c.document, isNull r = false) :
    decompressAndParseDevices rt now c.entry.compressedPayload (some c.entry.contentEncoding)
      deviceUuid deviceName = .ok ((elements c.document).map (entryOf now deviceUuid deviceName)) := by
  have hnull : (elements c.document).any isNull = false := by
    rw [List.any_eq_false]
    intro r hr
    simp [hread r hr]
  have hparse : parse (toStringUtf8 rt (utf8 (stringify c.document))) = some c.document := by
    rw [toStringUtf8_utf8, parse_stringify c.proper]
  unfold decompressAndParseDevices
  rw [c.payload_eq, payloadOf]
  cases compressionOf (some c.entry.contentEncoding) with
  | none => simp [Bind.bind, Except.bind, hparse, hnull]
  | some k => simp [Bind.bind, Except.bind, rt.decompress_compress, hparse, hnull]

theorem resolve_carried (rt : Runtime) (now id : String) (c : CompressedDocument rt)
    (hne : c.entry.compressedPayload ≠ []) (hread : ∀ r ∈ elements c.document, isNull r = false) :
    ∃ out, resolveEntryData rt now (carriedEntry id c.entry) = .ok out ∧
      Carries c.document out := by
  have hemp : c.entry.compressedPayload.isEmpty = false := by simpa using hne
  refine ⟨(elements c.document).map (entryOf now (some c.entry.deviceUuid)
    (some c.entry.deviceName)),?_,?_⟩
  · simp only [resolveEntryData, carriedEntry, hemp, Bool.false_eq_true, if_false,
      decompress_document rt now c (some c.entry.deviceUuid) (some c.entry.deviceName) hread]
  · rw [Carries, List.forall₂_map_right_iff, List.forall₂_same]
    exact fun reading _ => member_data_entryOf _ _ _ reading

theorem parseMessage_carried (origin id : String) (entry : CompressedDeviceEntry)
    (hne : entry.compressedPayload ≠ []) :
    parseMessage origin (id,metadataFields entry++
      ["payload_b64",String.ofList (base64Text entry.compressedPayload)]) =
        .ok (carriedEntry id entry) := by
  have hread := readBase64_base64Text entry.compressedPayload
  have hemp : entry.compressedPayload.isEmpty = false := by simpa using hne
  have htext : nonEmpty (some (String.ofList (base64Text entry.compressedPayload))) =
      some (String.ofList (base64Text entry.compressedPayload)) := by
    have hchars : base64Text entry.compressedPayload ≠ [] := by
      intro h
      rw [h] at hread
      exact hne hread.symm
    simp [nonEmpty, hchars]
  have hpayload : ∀ p : ParsedStreamFields, p.payloadBase64 =
      some (String.ofList (base64Text entry.compressedPayload)) →
        decodeCompressedPayload p = some entry.compressedPayload := by
    intro p hp
    simp only [decodeCompressedPayload, hp, htext, String.toList_ofList, hread]
  unfold parseMessage
  simp only [parseStreamFields, metadataFields, List.cons_append, List.nil_append, setFields,
    setField, noFields]
  rw [hpayload _ rfl, Option.filter_some, hemp]
  rfl

inductive Queued (rt : Runtime) where
  | entries (deviceData : List DeviceDataEntry)
  | compressed (c : CompressedDocument rt)

def Queued.fields {rt : Runtime} : Queued rt → Option (List String)
  | .entries deviceData => (add true true deviceData).1
  | .compressed c => addCompressed true true c.entry

def stream {rt : Runtime} (items : List (String × Queued rt)) : List (String × List String) :=
  items.filterMap fun i => i.2.fields.map fun f => (i.1,f)

def Decoded (rt : Runtime) (now : String) (item : String × Queued rt)
    (entry : RedisDeviceEntry) : Prop :=
  entry.id = item.1 ∧
  match item.2 with
  | .entries deviceData =>
    resolveEntryData rt now entry = .ok (deviceData.map DeviceDataEntry.toValue)
  | .compressed c =>
    entry.data = (carriedEntry item.1 c.entry).data ∧
      ∃ out, resolveEntryData rt now entry = .ok out ∧ Carries c.document out

/-- Both readers make the same entries of the stream, nothing goes to the dead
letters and each entry resolves to what was queued. An empty batch is not
written. -/
def FormatAgrees (rt : Runtime) (now : String) (items : List (String × Queued rt)) : Prop :=
  ∃ entries, parseStreamMessages (stream items) = (entries,[]) ∧
    claimStaleMessages (some (stream items)) = (entries,[]) ∧
    List.Forall₂ (Decoded rt now) (items.filter fun i => i.2.fields.isSome) entries

def writtenEntry {rt : Runtime} (i : String × Queued rt) : Option RedisDeviceEntry :=
  match i.2 with
  | .entries l => if l.isEmpty then none else some (batchEntry i.1 l)
  | .compressed _ => none

theorem fields_entries {rt : Runtime} (l : List DeviceDataEntry) :
    (Queued.entries l : Queued rt).fields =
      if l.isEmpty then none else some ["data",batchText l] := by
  simp only [Queued.fields, add]
  split <;> rfl

theorem readMessages_batches {rt : Runtime} (origin : String) (items : List (String × Queued rt))
    (h : ∀ i ∈ items, ∃ l, i.2 = .entries l) :
    readMessages origin (stream items) = (items.filterMap writtenEntry,[]) := by
  induction items with
  | nil => rfl
  | cons i items ih =>
    obtain ⟨id,q⟩ := i
    obtain ⟨l,rfl⟩ : ∃ l, q = .entries l := h (id,q) List.mem_cons_self
    have ih := ih (fun j hj => h j (List.mem_cons_of_mem _ hj))
    simp only [readMessages, Prod.mk.injEq] at ih
    by_cases hl : l.isEmpty = true
    · have hs : stream ((id,Queued.entries l) :: items) = stream items := by
        simp [stream, fields_entries, hl]
      simp only [readMessages, hs, ih.1, ih.2, List.filterMap_cons, writtenEntry, hl, if_true]
    · have hs : stream ((id,Queued.entries l) :: items) =
          (id,["data",batchText l]) :: stream items := by
        simp [stream, fields_entries, hl]
      have hw : writtenEntry (id,(Queued.entries l : Queued rt)) = some (batchEntry id l) :=
        if_neg hl
      have hp : parsed (parseMessage origin (id,["data",batchText l])) = some (batchEntry id l) := by
        rw [parseMessage_batch]
        rfl
      have hf : failed (parseMessage origin (id,["data",batchText l])) = none := by
        rw [parseMessage_batch]
        rfl
      rw [readMessages, hs, List.filterMap_cons_some (f := fun m => parsed (parseMessage origin m)) hp,
        List.filterMap_cons_none (f := fun m => failed (parseMessage origin m)) hf, ih.1, ih.2,
        List.filterMap_cons_some hw]

theorem decoded_batches {rt : Runtime} (now : String) (items : List (String × Queued rt))
    (h : ∀ i ∈ items, ∃ l, i.2 = .entries l) :
    List.Forall₂ (Decoded rt now) (items.filter fun i => i.2.fields.isSome)
      (items.filterMap writtenEntry) := by
  induction items with
  | nil => exact List.Forall₂.nil
  | cons i items ih =>
    obtain ⟨id,q⟩ := i
    obtain ⟨l,rfl⟩ : ∃ l, q = .entries l := h (id,q) List.mem_cons_self
    have ih := ih (fun j hj => h j (List.mem_cons_of_mem _ hj))
    by_cases hl : l.isEmpty = true
    · simpa [fields_entries, hl, writtenEntry] using ih
    · simp only [List.filter_cons, fields_entries, hl, List.filterMap_cons, writtenEntry]
      exact List.Forall₂.cons ⟨rfl,resolve_batch rt now id l⟩ ih

theorem compressed_fails {rt : Runtime} (origin : String) {items : List (String × Queued rt)}
    {id : String} {c : CompressedDocument rt} (h : (id,Queued.compressed c) ∈ items) :
    (readMessages origin (stream items)).2 ≠ [] := by
  obtain ⟨e,he⟩ := parseMessage_metadata origin id c.entry
  have hmem : (id,metadataFields c.entry) ∈ stream items :=
    List.mem_filterMap.mpr ⟨_,h,rfl⟩
  exact List.ne_nil_of_mem (List.mem_filterMap.mpr ⟨_,hmem,by rw [he]; rfl⟩)

/-- The formats agree exactly on what was queued as a batch. -/
theorem format_agrees_iff (rt : Runtime) (now : String) (items : List (String × Queued rt)) :
    FormatAgrees rt now items ↔ ∀ i ∈ items, ∃ l, i.2 = .entries l := by
  constructor
  · rintro ⟨entries,hfresh,_,_⟩ ⟨id,q⟩ hi
    cases q with
    | entries l => exact ⟨l,rfl⟩
    | compressed c =>
      have hfail := compressed_fails "" hi
      rw [parseStreamMessages] at hfresh
      rw [hfresh] at hfail
      exact absurd rfl hfail
  · intro h
    exact ⟨items.filterMap writtenEntry,readMessages_batches _ items h,
      readMessages_batches _ items h,decoded_batches now items h⟩

/-- A runtime whose compression leaves the bytes as they are. -/
def storedRuntime : Runtime where
  compress := fun _ bytes => bytes
  decompress := fun _ bytes => .ok bytes
  decompress_compress := fun _ _ => rfl
  malformed := fun _ => ""
  syntaxError := fun _ => "Unexpected end of JSON input"
  typeError := "Cannot read properties of null"

def reading21 : Value := .obj [("temperature",.num (.ofNat 21 (by decide)))]

def plainDocument : CompressedDocument storedRuntime where
  entry := ⟨"d-1","press","b-1",utf8 (stringify reading21),"identity","application/json"⟩
  document := reading21
  proper := ⟨by decide,trivial,trivial⟩
  payload_eq := rfl

theorem compressed_undecodable :
    ¬∀ (rt : Runtime) (now : String) (items : List (String × Queued rt)),
      FormatAgrees rt now items := by
  intro h
  obtain ⟨entries,hfresh,_,_⟩ := h storedRuntime "" [("1-0",.compressed plainDocument)]
  have hmem : ("1-0",Queued.compressed plainDocument) ∈ [("1-0",Queued.compressed plainDocument)] :=
    List.mem_cons_self
  have hfail := compressed_fails "" hmem
  rw [parseStreamMessages] at hfresh
  rw [hfresh] at hfail
  exact hfail rfl

end Iotistica.StreamFormat
