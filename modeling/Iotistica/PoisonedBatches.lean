import Iotistica.EntryRows
import Iotistica.Spreads

/-!
# Poisoned batches

A batch is expanded entry by entry. An entry that throws is reported and loses
all its readings, unless the report throws too, which ends the batch. Of rows
with one key the last is kept; the keys, the comparison of the sort and the
lines of the writer can throw for a row of their own.
-/

set_option autoImplicit false

namespace Iotistica.EntryRows
open Iotistica.JsonText Iotistica.CopyReadings

/-- How dates are read, how strings compare, and which rows a sort compares
with which. -/
structure Runtime where
  parse : String → Option DateValue
  localeCompare : String → String → ℤ
  sorted : (ReadingInsert → ReadingInsert → Option ℤ) → List ReadingInsert → List ReadingInsert
  compared : (ReadingInsert → ReadingInsert → Option ℤ) → List ReadingInsert →
    List (ReadingInsert × ReadingInsert)
  sorted_perm : ∀ compare rows, (sorted compare rows).Perm rows
  compared_mem : ∀ compare rows p, p ∈ compared compare rows → p.1 ∈ rows ∧ p.2 ∈ rows

section
variable (rt : Runtime) (ingestedAt : DateValue)

def entryRows (entry : Value) : Option (List ReadingInsert) :=
  (detectProtocol entry).bind (fun protocol => expandMessages rt.parse entry protocol ingestedAt)

def reportMalformed (entry : Value) : Option Unit :=
  (property entry "deviceUuid").bind (fun _ => shortId entry)

def normalizeBatch : List Value → Option (List ReadingInsert)
  | [] => some []
  | entry::rest =>
    match entryRows rt ingestedAt entry with
    | some rows => (normalizeBatch rest).map (fun later => rows++later)
    | none => (reportMalformed entry).bind (fun _ => normalizeBatch rest)

def millisText (d : Option DateValue) : String :=
  match d with
  | some d => JsNumerals.intText d.ms
  | none => "NaN"

def timeText (r : ReadingInsert) : Option String :=
  match r.time.coalesce (.date (some ingestedAt)) with
  | .date d => some (millisText d)
  | _ => none

def rowKey (r : ReadingInsert) : Option String :=
  (fieldString r.agent_uuid).bind (fun agent =>
    (fieldString r.metric_name).bind (fun metric =>
      (timeText ingestedAt r).map (fun time => agent++":"++metric++":"++time)))

def dedup (rows : List ReadingInsert) : Option (List ReadingInsert) :=
  (rows.mapM (fun r => (rowKey ingestedAt r).map (fun key => (key,r)))).map (fun pairs =>
    ((OrderedMap.empty.assignAll pairs).entries.map Prod.snd))

def getTime : Field → Option (Option ℤ)
  | .undefined => some (some 0)
  | .null => some (some 0)
  | .date d => some (d.map DateValue.ms)
  | _ => none

/-- `localeCompare` is a method of strings only and takes any argument as text. -/
def compareText (a b : Field) : Option ℤ :=
  match a with
  | .string s => (fieldString b).map (rt.localeCompare s)
  | _ => none

def compareRows (a b : ReadingInsert) : Option ℤ :=
  (compareText rt a.agent_uuid b.agent_uuid).bind (fun uuidCmp =>
    if uuidCmp ≠ 0 then some uuidCmp
    else (compareText rt a.metric_name b.metric_name).bind (fun metricCmp =>
      if metricCmp ≠ 0 then some metricCmp
      else (getTime a.time).bind (fun s => (getTime b.time).map (fun t =>
        match s, t with
        | some s, some t => s-t
        | _, _ => 0))))

def sortRows (rows : List ReadingInsert) : Option (List ReadingInsert) :=
  if (rt.compared (compareRows rt) rows).all (fun p => (compareRows rt p.1 p.2).isSome) then
    some (rt.sorted (compareRows rt) rows)
  else none

/-- The rows that are passed to `bulkInsert`; none where it throws before. -/
def insertBatch (data : List Value) : Option (List ReadingInsert) :=
  (normalizeBatch rt ingestedAt data).bind (fun allReadings =>
    match allReadings with
    | [] => some []
    | rows => (dedup ingestedAt rows).bind (sortRows rt))

end

inductive EntryFormat where
  | messages (messages : List Value)
  | list (data : Value) (readings : List Value)
  | single (members : Members)
  | bare (data : Option Value)

def entryFormat (entry : Value) : EntryFormat :=
  let data := member entry "data"
  match data.bind (fun v => member v "messages") with
  | some (.arr messages) => .messages messages
  | _ =>
    match data, data.bind (fun v => member v "readings") with
    | some v, some (.arr readings) => .list v readings
    | some (.obj members), _ => .single members
    | d, _ => .bare d

def messageReadings (message : Value) : List Value :=
  match member message "readings" with
  | some (.arr items) => items
  | _ => []

/-- The readings of an entry in its format, with the timestamp and the object
of their message. -/
def formatReadings (entry : Value) : List (Value × Option Value × Option Value) :=
  match entryFormat entry with
  | .messages messages =>
    messages.flatMap (fun m => (messageReadings m).map (fun r => (r,member m "timestamp",some m)))
  | .list data readings => readings.map (fun r => (r,none,some data))
  | .single members => [(.obj members,none,some (.obj members))]
  | .bare _ => []

def readingKey (entry : Value) (x : Value × Option Value × Option Value) : Field × Field :=
  (metricName x.1 (resolveEntryDeviceName entry),ofMember (usedTimestamp x.1 entry x.2.1))

def bareKey (entry : Value) (data : Option Value) : Field × Field :=
  (metricName (data.getD .null) (resolveEntryDeviceName entry),ofMember (member entry "timestamp"))

/-- The metric and the timestamp for each row of an entry: those of its
readings without the metadata nodes, or of its data as a whole. -/
def entryKeys (entry : Value) : List (Field × Field) :=
  let keys := ((formatReadings entry).filter (fun x => !isMetadata x.1)).map (readingKey entry)
  match entryFormat entry with
  | .single members => if isMetadata (.obj members) then [bareKey entry (some (.obj members))] else keys
  | .bare data => [bareKey entry data]
  | _ => keys

section
variable (rt : Runtime) (ingestedAt now : DateValue)

def parsable (t : Option Value) : Bool :=
  match t with
  | some (.str s) => (rt.parse s).isSome
  | some (.num d) => (timeClip d).isSome
  | _ => false

/-- An object, no metadata node, with a timestamp that can be parsed: its own,
that of its message or that of its entry. -/
def WellFormed (entry : Value) (x : Value × Option Value × Option Value) : Prop :=
  (∃ members, x.1 = .obj members) ∧ isMetadata x.1 = false ∧
    (parsable rt (member x.1 "timestamp") || parsable rt x.2.1 ||
      parsable rt (member entry "timestamp")) = true

def rowOf (entry : Value) (x : Value × Option Value × Option Value) : Option ReadingInsert :=
  (detectProtocol entry).bind (fun protocol =>
    readingRow rt.parse x.1 entry protocol ingestedAt x.2.1 x.2.2)

/-- Among the rows is that of the reading or the one that replaced it under
its key. -/
def Delivered (rows : List ReadingInsert) (entry : Value)
    (x : Value × Option Value × Option Value) : Prop :=
  ∃ row, rowOf rt ingestedAt entry x = some row ∧
    ∃ r ∈ rows, rowKey ingestedAt r = rowKey ingestedAt row

/-- Nothing that is well-formed is lost, and what is passed on can be written. -/
def Isolated (data : List Value) : Prop :=
  ∃ rows, insertBatch rt ingestedAt data = some rows ∧
    (∀ entry ∈ data, ∀ x ∈ formatReadings entry, WellFormed rt entry x →
      Delivered rt ingestedAt rows entry x) ∧
    ∀ r ∈ rows, (toCopyLine now r).isSome

def Readable (entry : Value) (messageTimestamp : Option Value) (reading : Value) : Prop :=
  reading ≠ .null ∧
    if isMetadata reading then (shortId entry).isSome
    else (newDate rt.parse (ofMember (usedTimestamp reading entry messageTimestamp))).isSome

/-- An entry without a null and without a date that throws, where the code
reads them. -/
def Expandable (entry : Value) : Prop :=
  entry ≠ .null ∧
  match entryFormat entry with
  | .messages messages => ∀ m ∈ messages, m ≠ .null ∧
      ∀ r ∈ messageReadings m, Readable rt entry (member m "timestamp") r
  | .list _ readings => ∀ r ∈ readings, Readable rt entry none r
  | .single members => Readable rt entry none (.obj members) ∧
      (isMetadata (.obj members) = true →
        (newDate rt.parse (ofMember (member entry "timestamp"))).isSome)
  | .bare data => data ≠ some .null ∧
      (newDate rt.parse (ofMember (member entry "timestamp"))).isSome

def batchRows (data : List Value) : List ReadingInsert :=
  data.flatMap (fun entry => (entryRows rt ingestedAt entry).getD [])

/-- Which rows a sort compares is open, so the last condition is about the
rows that it gets. -/
structure Unpoisoned (data : List Value) : Prop where
  reported : ∀ entry ∈ data, ¬Expandable rt entry → entry ≠ .null ∧ (shortId entry).isSome
  spared : ∀ entry ∈ data, ¬Expandable rt entry → ∀ x ∈ formatReadings entry,
    WellFormed rt entry x → Delivered rt ingestedAt (batchRows rt ingestedAt data) entry x
  keyed : ∀ entry ∈ data, Expandable rt entry → ∀ key ∈ entryKeys entry,
    (fieldString (ofMember (member entry "deviceUuid"))).isSome ∧ (fieldString key.1).isSome
  dated : ∀ entry ∈ data, Expandable rt entry → ∀ key ∈ entryKeys entry,
    newDate rt.parse key.2 ≠ some none
  comparable : ∀ rows, dedup ingestedAt (batchRows rt ingestedAt data) = some rows →
    ∀ p ∈ rt.compared (compareRows rt) rows, (compareRows rt p.1 p.2).isSome

end

theorem property_eq {v : Value} (h : v ≠ .null) (key : String) :
    property v key = some (member v key) := by
  cases v with
  | null => exact absurd rfl h
  | _ => rfl

section
variable {parse : String → Option DateValue} {entry : Value} {protocol : String}
  {ingestedAt : DateValue}

theorem readingRow_isSome (reading : Value) (messageTimestamp messageContext : Option Value) :
    (readingRow parse reading entry protocol ingestedAt messageTimestamp messageContext).isSome =
      (newDate parse (ofMember (usedTimestamp reading entry messageTimestamp))).isSome := by
  unfold readingRow
  rw [Option.isSome_map]

theorem normalizeReading_eq {reading : Value} (h : reading ≠ .null)
    (messageTimestamp messageContext : Option Value) :
    normalizeReading parse reading entry protocol ingestedAt messageTimestamp messageContext =
      if isMetadata reading then (shortId entry).map (fun _ => none)
      else (readingRow parse reading entry protocol ingestedAt messageTimestamp
        messageContext).map some := by
  unfold normalizeReading
  rw [property_eq h, Option.bind_some]

theorem normalizeAll_isSome {messageTimestamp messageContext : Option Value} {readings : List Value} :
    (normalizeAll parse entry protocol ingestedAt messageTimestamp messageContext readings).isSome ↔
      ∀ r ∈ readings, (normalizeReading parse r entry protocol ingestedAt messageTimestamp
        messageContext).isSome := by
  induction readings with
  | nil => simp [normalizeAll]
  | cons r readings ih =>
    rw [normalizeAll, List.forall_mem_cons, ← ih]
    cases normalizeReading parse r entry protocol ingestedAt messageTimestamp messageContext with
    | none => simp
    | some row => simp

theorem mem_normalizeAll {messageTimestamp messageContext : Option Value} {readings : List Value}
    {rows : List ReadingInsert}
    (h : normalizeAll parse entry protocol ingestedAt messageTimestamp messageContext readings =
      some rows) (row : ReadingInsert) :
    row ∈ rows ↔ ∃ r ∈ readings, normalizeReading parse r entry protocol ingestedAt messageTimestamp
      messageContext = some (some row) := by
  induction readings generalizing rows with
  | nil =>
    cases h
    simp
  | cons r readings ih =>
    obtain ⟨head,hhead,h⟩ := Option.bind_eq_some_iff.mp h
    obtain ⟨later,hlater,rfl⟩ := Option.map_eq_some_iff.mp h
    rw [List.mem_append, ih hlater, Option.mem_toList]
    simp [hhead]

def messageRows (parse : String → Option DateValue) (entry : Value) (protocol : String)
    (ingestedAt : DateValue) (message : Value) : Option (List ReadingInsert) :=
  (property message "readings").bind (fun _ =>
    normalizeAll parse entry protocol ingestedAt (member message "timestamp") (some message)
      (messageReadings message))

theorem expandFormat1_cons (message : Value) (rest : List Value) :
    expandFormat1 parse entry protocol ingestedAt (message::rest) =
      (messageRows parse entry protocol ingestedAt message).bind (fun rows =>
        (expandFormat1 parse entry protocol ingestedAt rest).map (fun later => rows++later)) := by
  rw [expandFormat1, messageRows, Option.bind_assoc]
  by_cases hnull : message = .null
  · subst hnull
    rfl
  · rw [property_eq hnull, Option.bind_some, Option.bind_some, messageReadings]
    cases member message "readings" with
    | none => rfl
    | some v => cases v <;> rfl

theorem expandFormat1_isSome {messages : List Value} :
    (expandFormat1 parse entry protocol ingestedAt messages).isSome ↔
      ∀ m ∈ messages, (messageRows parse entry protocol ingestedAt m).isSome := by
  induction messages with
  | nil => simp [expandFormat1]
  | cons m messages ih =>
    rw [expandFormat1_cons, List.forall_mem_cons, ← ih]
    cases messageRows parse entry protocol ingestedAt m with
    | none => simp
    | some rows => simp

theorem mem_expandFormat1 {messages : List Value} {rows : List ReadingInsert}
    (h : expandFormat1 parse entry protocol ingestedAt messages = some rows) (row : ReadingInsert) :
    row ∈ rows ↔ ∃ m ∈ messages, ∃ now, messageRows parse entry protocol ingestedAt m = some now ∧
      row ∈ now := by
  induction messages generalizing rows with
  | nil =>
    cases h
    simp
  | cons m messages ih =>
    rw [expandFormat1_cons] at h
    obtain ⟨now,hnow,h⟩ := Option.bind_eq_some_iff.mp h
    obtain ⟨later,hlater,rfl⟩ := Option.map_eq_some_iff.mp h
    rw [List.mem_append, ih hlater]
    simp [hnow]

end

section
variable (rt : Runtime) (ingestedAt : DateValue) (entry : Value) (protocol : String)

theorem normalizeReading_isSome (reading : Value) (messageTimestamp messageContext : Option Value) :
    (normalizeReading rt.parse reading entry protocol ingestedAt messageTimestamp
      messageContext).isSome ↔ Readable rt entry messageTimestamp reading := by
  unfold Readable
  by_cases hnull : reading = .null
  · subst hnull
    simp [normalizeReading, property]
  · rw [normalizeReading_eq hnull, and_iff_right hnull]
    by_cases hm : isMetadata reading = true
    · rw [if_pos hm, if_pos hm, Option.isSome_map]
    · rw [if_neg hm, if_neg hm, Option.isSome_map, readingRow_isSome]

theorem messageRows_isSome (message : Value) :
    (messageRows rt.parse entry protocol ingestedAt message).isSome ↔ message ≠ .null ∧
      ∀ r ∈ messageReadings message, Readable rt entry (member message "timestamp") r := by
  by_cases hnull : message = .null
  · subst hnull
    simp [messageRows, property]
  · rw [messageRows, property_eq hnull, Option.bind_some, and_iff_right hnull, normalizeAll_isSome]
    simp only [normalizeReading_isSome]

theorem bareRow_isSome (data : Option Value) :
    (bareRow rt.parse entry protocol ingestedAt data).isSome ↔ data ≠ some .null ∧
      (newDate rt.parse (ofMember (member entry "timestamp"))).isSome := by
  unfold bareRow
  dsimp only
  cases data with
  | none => simp [bareValue]
  | some v =>
    cases v with
    | _ => simp [bareValue]

theorem expandMessages_eq (h : entry ≠ .null) :
    expandMessages rt.parse entry protocol ingestedAt =
      match entryFormat entry with
      | .messages messages => expandFormat1 rt.parse entry protocol ingestedAt messages
      | .list data readings => expandFormat2 rt.parse entry protocol ingestedAt data readings
      | .single members =>
        (normalizeReading rt.parse (.obj members) entry protocol ingestedAt none
          (some (.obj members))).bind (fun normalized =>
            match normalized with
            | some row => some [row]
            | none => (bareRow rt.parse entry protocol ingestedAt (some (.obj members))).map
                (fun row => [row]))
      | .bare data => (bareRow rt.parse entry protocol ingestedAt data).map (fun row => [row]) := by
  rw [expandMessages, property_eq h, Option.bind_some, entryFormat]
  cases member entry "data" with
  | none => rfl
  | some v =>
    rw [Option.bind_some, Option.bind_some]
    cases v with
    | obj members =>
      cases hm : member (.obj members) "messages" with
      | some w =>
        cases w with
        | arr items => rfl
        | _ =>
          cases hr : member (.obj members) "readings" with
          | none => rfl
          | some u => cases u <;> rfl
      | none =>
        cases hr : member (.obj members) "readings" with
        | none => rfl
        | some u => cases u <;> rfl
    | _ => rfl

theorem expandMessages_isSome :
    (expandMessages rt.parse entry protocol ingestedAt).isSome ↔ Expandable rt entry := by
  unfold Expandable
  by_cases hnull : entry = .null
  · subst hnull
    simp [expandMessages, property]
  rw [expandMessages_eq rt ingestedAt entry protocol hnull, and_iff_right hnull]
  cases entryFormat entry with
  | messages messages =>
    simp only [expandFormat1_isSome, messageRows_isSome]
  | list data readings =>
    simp only [expandFormat2, normalizeAll_isSome, normalizeReading_isSome]
  | single members =>
    have hread := normalizeReading_isSome rt ingestedAt entry protocol (.obj members) none
      (some (.obj members))
    dsimp only
    rw [← hread, normalizeReading_eq (by simp)]
    by_cases hm : isMetadata (.obj members) = true
    · rw [if_pos hm]
      cases shortId entry with
      | none => simp
      | some u => simp [bareRow_isSome, hm]
    · rw [if_neg hm]
      cases readingRow rt.parse (.obj members) entry protocol ingestedAt none
          (some (.obj members)) with
      | none => simp
      | some row => simp [hm]
  | bare data =>
    simp only [Option.isSome_map, bareRow_isSome]

theorem detectProtocol_isSome : (detectProtocol entry).isSome ↔ entry ≠ .null := by
  unfold detectProtocol
  rw [Option.isSome_map]
  cases entry with
  | _ => simp [property]

theorem entryRows_isSome : (entryRows rt ingestedAt entry).isSome ↔ Expandable rt entry := by
  unfold entryRows
  cases hp : detectProtocol entry with
  | none =>
    have hnull : entry = .null := by
      by_contra h
      have hsome := (detectProtocol_isSome entry).mpr h
      rw [hp] at hsome
      cases hsome
    subst hnull
    simp [Expandable]
  | some protocol =>
    rw [Option.bind_some]
    exact expandMessages_isSome rt ingestedAt entry protocol

theorem entryRows_eq_some {rows : List ReadingInsert}
    (h : entryRows rt ingestedAt entry = some rows) : ∃ protocol,
      detectProtocol entry = some protocol ∧ entry ≠ .null ∧
        expandMessages rt.parse entry protocol ingestedAt = some rows := by
  obtain ⟨protocol,hp,hrows⟩ := Option.bind_eq_some_iff.mp h
  have hnull : entry ≠ .null := by
    rw [← detectProtocol_isSome, hp]
    rfl
  exact ⟨protocol,hp,hnull,hrows⟩

theorem rowOf_mem {rows : List ReadingInsert} (h : entryRows rt ingestedAt entry = some rows)
    {x : Value × Option Value × Option Value} (hx : x ∈ formatReadings entry)
    (hmeta : isMetadata x.1 = false) :
    ∃ row ∈ rows, rowOf rt ingestedAt entry x = some row := by
  obtain ⟨protocol,hp,hnull,hrows⟩ := entryRows_eq_some rt ingestedAt entry h
  have hrow : rowOf rt ingestedAt entry x =
      readingRow rt.parse x.1 entry protocol ingestedAt x.2.1 x.2.2 := by
    rw [rowOf, hp, Option.bind_some]
  have hnorm : x.1 ≠ .null → normalizeReading rt.parse x.1 entry protocol ingestedAt x.2.1 x.2.2 =
      (readingRow rt.parse x.1 entry protocol ingestedAt x.2.1 x.2.2).map some := by
    intro hvalue
    rw [normalizeReading_eq hvalue, if_neg (by rw [hmeta]; decide)]
  -- a reading that all of them read has its row among theirs
  have hall : ∀ {readings : List Value} {rs : List ReadingInsert}, x.1 ∈ readings →
      normalizeAll rt.parse entry protocol ingestedAt x.2.1 x.2.2 readings = some rs →
      ∃ row ∈ rs, readingRow rt.parse x.1 entry protocol ingestedAt x.2.1 x.2.2 = some row := by
    intro readings rs hin hrs
    have hsome := normalizeAll_isSome.mp (by rw [hrs]; rfl) x.1 hin
    have hvalue := ((normalizeReading_isSome rt ingestedAt entry protocol x.1 x.2.1 x.2.2).mp hsome).1
    rw [hnorm hvalue, Option.isSome_map] at hsome
    obtain ⟨row,hr⟩ := Option.isSome_iff_exists.mp hsome
    exact ⟨row,(mem_normalizeAll hrs row).mpr ⟨x.1,hin,by rw [hnorm hvalue, hr]; rfl⟩,hr⟩
  rw [hrow]
  rw [expandMessages_eq rt ingestedAt entry protocol hnull] at hrows
  unfold formatReadings at hx
  cases hf : entryFormat entry with
  | messages messages =>
    rw [hf] at hrows hx
    dsimp only at hrows
    obtain ⟨m,hm,hx⟩ := List.mem_flatMap.mp hx
    obtain ⟨r,hr,rfl⟩ := List.mem_map.mp hx
    have hsome := expandFormat1_isSome.mp (by rw [hrows]; rfl) m hm
    obtain ⟨now,hnow⟩ := Option.isSome_iff_exists.mp hsome
    obtain ⟨-,-,hnormal⟩ := Option.bind_eq_some_iff.mp hnow
    obtain ⟨row,hrow,heq⟩ := hall hr hnormal
    exact ⟨row,(mem_expandFormat1 hrows row).mpr ⟨m,hm,now,hnow,hrow⟩,heq⟩
  | list data readings =>
    rw [hf] at hrows hx
    obtain ⟨r,hr,rfl⟩ := List.mem_map.mp hx
    exact hall hr hrows
  | single members =>
    rw [hf] at hrows hx
    rw [List.mem_singleton.mp hx] at hnorm ⊢
    dsimp only at hrows hnorm ⊢
    rw [hnorm (by simp)] at hrows
    cases hr : readingRow rt.parse (.obj members) entry protocol ingestedAt none
        (some (.obj members)) with
    | none =>
      rw [hr] at hrows
      cases hrows
    | some row =>
      rw [hr] at hrows
      cases hrows
      exact ⟨row,List.mem_singleton_self row,rfl⟩
  | bare data =>
    rw [hf] at hx
    cases hx

structure RowDates (r : ReadingInsert) : Prop where
  time : ∃ d, r.time = .date d
  others : .date none ∉ [r.agent_uuid,r.metric_name,r.value,r.quality,r.unit,r.protocol,r.extra,
    r.extraJson,r.detectionMethodsJson,r.anomaly_score,r.anomaly_threshold,r.baseline_samples,
    r.detection_methods]

theorem ofMember_ne_date (v : Option Value) : ofMember v ≠ .date none := by
  cases v with
  | none => simp [ofMember]
  | some v => cases v <;> simp [ofMember, ofValue]

theorem numberMember_ne_date (v : Value) (key : String) {absent : Field} (h : absent ≠ .date none) :
    numberMember v key absent ≠ .date none := by
  unfold numberMember
  split
  · simp
  · exact h

theorem metricName_ne_date (v : Value) (name : String) : metricName v name ≠ .date none := by
  unfold metricName
  split
  · exact ofMember_ne_date (some _)
  · simp

theorem unitOf_ne_date (v : Value) : unitOf v ≠ .date none := by
  unfold unitOf
  split
  · exact ofMember_ne_date (some _)
  · simp

theorem readingRow_dates {reading : Value} {messageTimestamp messageContext : Option Value}
    {row : ReadingInsert} (h : readingRow rt.parse reading entry protocol ingestedAt
      messageTimestamp messageContext = some row) : RowDates row := by
  obtain ⟨time,-,rfl⟩ := Option.map_eq_some_iff.mp h
  refine ⟨⟨time,rfl⟩,?_⟩
  have hnull : Field.null ≠ .date none := by simp
  have hundef : Field.undefined ≠ .date none := by simp
  simp [Ne.symm (ofMember_ne_date _), Ne.symm (metricName_ne_date _ _), Ne.symm (unitOf_ne_date _),
    Ne.symm (numberMember_ne_date _ _ hnull), Ne.symm (numberMember_ne_date _ _ hundef)]

theorem bareRow_dates {data : Option Value} {row : ReadingInsert}
    (h : bareRow rt.parse entry protocol ingestedAt data = some row) : RowDates row := by
  obtain ⟨value,hvalue,h⟩ := Option.bind_eq_some_iff.mp h
  obtain ⟨time,-,rfl⟩ := Option.map_eq_some_iff.mp h
  refine ⟨⟨time,rfl⟩,?_⟩
  have hnumber : ∀ v : Option Value, onlyNumber v ≠ .date none := by
    intro v
    unfold onlyNumber
    split <;> simp
  have hv : Field.date none ≠ value := by
    rintro rfl
    unfold bareValue at hvalue
    split at hvalue
    · cases hvalue
    · exact hnumber _ (Option.some.inj hvalue)
    · cases hvalue
    · exact hnumber _ (Option.some.inj hvalue)
  simp [Ne.symm (ofMember_ne_date _), Ne.symm (metricName_ne_date _ _), Ne.symm (unitOf_ne_date _), hv]

/-- What the row of an entry was made of. -/
theorem entryRows_from {rows : List ReadingInsert} (h : entryRows rt ingestedAt entry = some rows)
    {row : ReadingInsert} (hrow : row ∈ rows) :
    (∃ x ∈ formatReadings entry, readingKey entry x ∈ entryKeys entry ∧
      rowOf rt ingestedAt entry x = some row) ∨
      ∃ protocol data, bareKey entry data ∈ entryKeys entry ∧
        bareRow rt.parse entry protocol ingestedAt data = some row := by
  obtain ⟨protocol,hp,hnull,hrows⟩ := entryRows_eq_some rt ingestedAt entry h
  have hread : ∀ {x : Value × Option Value × Option Value},
      normalizeReading rt.parse x.1 entry protocol ingestedAt x.2.1 x.2.2 = some (some row) →
        isMetadata x.1 = false ∧ rowOf rt ingestedAt entry x = some row := by
    intro x hx
    obtain ⟨-,-,hx⟩ := Option.bind_eq_some_iff.mp hx
    split at hx
    · obtain ⟨-,-,hx⟩ := Option.map_eq_some_iff.mp hx
      cases hx
    · next hmeta =>
      obtain ⟨row',hrow',hx⟩ := Option.map_eq_some_iff.mp hx
      cases hx
      exact ⟨by simpa using hmeta,by rw [rowOf, hp, Option.bind_some]; exact hrow'⟩
  have hkey : ∀ {x : Value × Option Value × Option Value}, x ∈ formatReadings entry →
      isMetadata x.1 = false → readingKey entry x ∈
        ((formatReadings entry).filter (fun x => !isMetadata x.1)).map (readingKey entry) :=
    fun hx hmeta => List.mem_map_of_mem (List.mem_filter.mpr ⟨hx,by simp [hmeta]⟩)
  rw [expandMessages_eq rt ingestedAt entry protocol hnull] at hrows
  unfold entryKeys
  cases hf : entryFormat entry with
  | messages messages =>
    rw [hf] at hrows
    obtain ⟨m,hm,now,hnow,hin⟩ := (mem_expandFormat1 hrows row).mp hrow
    obtain ⟨-,-,hnormal⟩ := Option.bind_eq_some_iff.mp hnow
    obtain ⟨r,hr,hn⟩ := (mem_normalizeAll hnormal row).mp hin
    obtain ⟨hmeta,hof⟩ := hread (x := (r,member m "timestamp",some m)) hn
    have hx : (r,member m "timestamp",some m) ∈ formatReadings entry := by
      rw [formatReadings, hf]
      exact List.mem_flatMap.mpr ⟨m,hm,List.mem_map_of_mem hr⟩
    exact Or.inl ⟨_,hx,hkey hx hmeta,hof⟩
  | list data readings =>
    rw [hf] at hrows
    obtain ⟨r,hr,hn⟩ := (mem_normalizeAll hrows row).mp hrow
    obtain ⟨hmeta,hof⟩ := hread (x := (r,none,some data)) hn
    have hx : (r,none,some data) ∈ formatReadings entry := by
      rw [formatReadings, hf]
      exact List.mem_map_of_mem hr
    exact Or.inl ⟨_,hx,hkey hx hmeta,hof⟩
  | single members =>
    rw [hf] at hrows
    obtain ⟨normalized,hn,hrows⟩ := Option.bind_eq_some_iff.mp hrows
    cases normalized with
    | some row' =>
      cases hrows
      obtain rfl := List.mem_singleton.mp hrow
      obtain ⟨hmeta,hof⟩ := hread (x := (.obj members,none,some (.obj members))) hn
      have hx : (.obj members,none,some (.obj members)) ∈ formatReadings entry := by
        rw [formatReadings, hf]
        exact List.mem_singleton_self _
      refine Or.inl ⟨_,hx,?_,hof⟩
      dsimp only at hmeta ⊢
      rw [if_neg (by simp [hmeta])]
      exact hkey hx hmeta
    | none =>
      obtain ⟨row',hrow',rfl⟩ := Option.map_eq_some_iff.mp hrows
      obtain rfl := List.mem_singleton.mp hrow
      have hmeta : isMetadata (.obj members) = true := by
        by_contra hno
        rw [normalizeReading_eq (by simp), if_neg hno] at hn
        obtain ⟨_,-,he⟩ := Option.map_eq_some_iff.mp hn
        cases he
      refine Or.inr ⟨protocol,some (.obj members),?_,hrow'⟩
      dsimp only
      rw [if_pos hmeta]
      exact List.mem_singleton_self _
  | bare data =>
    rw [hf] at hrows
    obtain ⟨row',hrow',rfl⟩ := Option.map_eq_some_iff.mp hrows
    obtain rfl := List.mem_singleton.mp hrow
    exact Or.inr ⟨protocol,data,List.mem_singleton_self _,hrow'⟩

/-- The row has the uuid of the entry, the metric and the date of the key. -/
def KeyedBy (row : ReadingInsert) (key : Field × Field) : Prop :=
  row.agent_uuid = ofMember (member entry "deviceUuid") ∧ row.metric_name = key.1 ∧
    (newDate rt.parse key.2).map Field.date = some row.time

theorem readingRow_keyed {x : Value × Option Value × Option Value} {row : ReadingInsert}
    (h : rowOf rt ingestedAt entry x = some row) : KeyedBy rt entry row (readingKey entry x) := by
  obtain ⟨protocol,-,hread⟩ := Option.bind_eq_some_iff.mp h
  obtain ⟨time,htime,rfl⟩ := Option.map_eq_some_iff.mp hread
  exact ⟨rfl,rfl,by rw [readingKey, htime]; rfl⟩

theorem bareRow_keyed {data : Option Value} {row : ReadingInsert}
    (h : bareRow rt.parse entry protocol ingestedAt data = some row) :
    KeyedBy rt entry row (bareKey entry data) := by
  obtain ⟨value,-,h⟩ := Option.bind_eq_some_iff.mp h
  obtain ⟨time,htime,rfl⟩ := Option.map_eq_some_iff.mp h
  exact ⟨rfl,rfl,by rw [bareKey, htime]; rfl⟩

theorem exists_keyed {rows : List ReadingInsert} (h : entryRows rt ingestedAt entry = some rows)
    {key : Field × Field} (hkey : key ∈ entryKeys entry) : ∃ row ∈ rows, KeyedBy rt entry row key := by
  have hread : key ∈ ((formatReadings entry).filter (fun x => !isMetadata x.1)).map
      (readingKey entry) → ∃ row ∈ rows, KeyedBy rt entry row key := by
    intro hin
    obtain ⟨x,hx,rfl⟩ := List.mem_map.mp hin
    obtain ⟨hx,hmeta⟩ := List.mem_filter.mp hx
    obtain ⟨row,hrow,hof⟩ := rowOf_mem rt ingestedAt entry h hx (by simpa using hmeta)
    exact ⟨row,hrow,readingRow_keyed rt ingestedAt entry hof⟩
  obtain ⟨protocol,hp,hnull,hrows⟩ := entryRows_eq_some rt ingestedAt entry h
  have hbare : ∀ {data : Option Value}, (bareRow rt.parse entry protocol ingestedAt data).map
      (fun row => [row]) = some rows → ∃ row ∈ rows, KeyedBy rt entry row (bareKey entry data) := by
    intro data hb
    obtain ⟨row,hrow,rfl⟩ := Option.map_eq_some_iff.mp hb
    exact ⟨row,List.mem_singleton_self row,bareRow_keyed rt ingestedAt entry protocol hrow⟩
  rw [expandMessages_eq rt ingestedAt entry protocol hnull] at hrows
  unfold entryKeys at hkey
  cases hf : entryFormat entry with
  | messages messages =>
    rw [hf] at hkey
    exact hread hkey
  | list data readings =>
    rw [hf] at hkey
    exact hread hkey
  | single members =>
    rw [hf] at hkey hrows
    dsimp only at hkey hrows
    split at hkey
    · next hmeta =>
      obtain rfl := List.mem_singleton.mp hkey
      obtain ⟨normalized,hn,hrows⟩ := Option.bind_eq_some_iff.mp hrows
      rw [normalizeReading_eq (by simp), if_pos hmeta] at hn
      obtain ⟨-,-,rfl⟩ := Option.map_eq_some_iff.mp hn
      exact hbare hrows
    · exact hread hkey
  | bare data =>
    rw [hf] at hkey hrows
    obtain rfl := List.mem_singleton.mp hkey
    exact hbare hrows

theorem entryRows_dates {rows : List ReadingInsert} (h : entryRows rt ingestedAt entry = some rows) :
    ∀ row ∈ rows, RowDates row := by
  intro row hrow
  rcases entryRows_from rt ingestedAt entry h hrow with ⟨x,-,-,hof⟩ | ⟨protocol,data,-,hbare⟩
  · obtain ⟨protocol,-,hread⟩ := Option.bind_eq_some_iff.mp hof
    exact readingRow_dates rt ingestedAt entry protocol hread
  · exact bareRow_dates rt ingestedAt entry protocol hbare

end

section
variable (rt : Runtime) (ingestedAt now : DateValue)

theorem toCopyLine_isSome {r : ReadingInsert} (h : RowDates r) :
    (toCopyLine now r).isSome ↔ r.time ≠ .date none := by
  constructor
  · intro hs ht
    have hnone : toCopyLine now r = none := by
      unfold toCopyLine copyFields
      rw [ht]
      rfl
    rw [hnone] at hs
    cases hs
  · intro ht
    have hvalid : ValidDates r := by
      have ho := h.others
      simp only [List.mem_cons, List.not_mem_nil, or_false, not_or] at ho
      simp only [ValidDates, ReadingInsert.fields, List.mem_cons, List.not_mem_nil, or_false, not_or]
      tauto
    rw [toCopyLine_eq hvalid]
    rfl

theorem timeText_eq {r : ReadingInsert} {d : Option DateValue} (h : r.time = .date d) :
    timeText ingestedAt r = some (millisText d) := by
  unfold timeText
  rw [h]
  rfl

theorem rowKey_isSome {r : ReadingInsert} (h : RowDates r) : (rowKey ingestedAt r).isSome ↔
    (fieldString r.agent_uuid).isSome ∧ (fieldString r.metric_name).isSome := by
  obtain ⟨d,hd⟩ := h.time
  unfold rowKey
  rw [timeText_eq ingestedAt hd]
  cases fieldString r.agent_uuid <;> cases fieldString r.metric_name <;> simp

theorem invalid_of_rowKey {r r' : ReadingInsert} (h' : RowDates r') {key : String}
    (hk : rowKey ingestedAt r = some key) (hk' : rowKey ingestedAt r' = some key)
    (ht : r.time = .date none) : r'.time = .date none := by
  obtain ⟨d,hd⟩ := h'.time
  cases d with
  | none => exact hd
  | some d =>
    have hcolon : ∀ t : ℤ, ':' ∉ (JsNumerals.intText t).toList :=
      fun t => JsNumerals.not_mem_intText t (by decide) (by decide)
    obtain ⟨agent,-,hk⟩ := Option.bind_eq_some_iff.mp hk
    obtain ⟨metric,-,hk⟩ := Option.bind_eq_some_iff.mp hk
    obtain ⟨agent',-,hk'⟩ := Option.bind_eq_some_iff.mp hk'
    obtain ⟨metric',-,hk'⟩ := Option.bind_eq_some_iff.mp hk'
    rw [timeText_eq ingestedAt ht, Option.map_some, Option.some.injEq] at hk
    rw [timeText_eq ingestedAt hd, Option.map_some, Option.some.injEq] at hk'
    have hlist := congrArg String.toList (hk.trans hk'.symm)
    simp only [String.toList_append, show ":".toList = [':'] from rfl, List.append_assoc,
      List.singleton_append] at hlist
    rw [← List.append_assoc, ← List.append_assoc] at hlist
    have hnan : (millisText none).toList = (JsNumerals.intText d.ms).toList :=
      (JsText.append_sep_inj_right (by decide) (hcolon d.ms) hlist).2
    exfalso
    apply JsNumerals.not_mem_intText d.ms (show Char.isDigit 'N' = false by decide) (by decide)
    rw [← hnan]
    decide

theorem dedup_isSome {rows : List ReadingInsert} : (dedup ingestedAt rows).isSome ↔
    ∀ r ∈ rows, (rowKey ingestedAt r).isSome := by
  unfold dedup
  rw [Option.isSome_map]
  induction rows with
  | nil => simp
  | cons r rows ih =>
    rw [List.forall_mem_cons, ← ih, List.mapM_cons]
    cases rowKey ingestedAt r with
    | none => simp
    | some key =>
      cases rows.mapM (fun r => (rowKey ingestedAt r).map (fun key => (key,r))) with
      | none => simp
      | some pairs => simp

theorem mem_keyed {rows : List ReadingInsert} {pairs : List (String × ReadingInsert)}
    (h : rows.mapM (fun r => (rowKey ingestedAt r).map (fun key => (key,r))) = some pairs)
    (key : String) (r : ReadingInsert) :
    (key,r) ∈ pairs ↔ r ∈ rows ∧ rowKey ingestedAt r = some key := by
  induction rows generalizing pairs with
  | nil =>
    cases h
    simp
  | cons x rows ih =>
    rw [List.mapM_cons] at h
    obtain ⟨e,he,h⟩ := Option.bind_eq_some_iff.mp h
    obtain ⟨rest,hrest,h⟩ := Option.bind_eq_some_iff.mp h
    obtain ⟨k,hk,rfl⟩ := Option.map_eq_some_iff.mp he
    cases h
    rw [List.mem_cons, ih hrest, List.mem_cons, Prod.mk.injEq]
    constructor
    · rintro (⟨rfl,rfl⟩ | ⟨hr,hkey⟩)
      · exact ⟨Or.inl rfl,hk⟩
      · exact ⟨Or.inr hr,hkey⟩
    · rintro ⟨rfl | hr,hkey⟩
      · rw [hk, Option.some.injEq] at hkey
        exact Or.inl ⟨hkey.symm,rfl⟩
      · exact Or.inr ⟨hr,hkey⟩

theorem dedup_spec {rows kept : List ReadingInsert} (h : dedup ingestedAt rows = some kept) :
    kept ⊆ rows ∧ ∀ r ∈ rows, ∃ r' ∈ kept, rowKey ingestedAt r' = rowKey ingestedAt r := by
  obtain ⟨pairs,hpairs,rfl⟩ := Option.map_eq_some_iff.mp h
  have hentry : ∀ e ∈ (OrderedMap.empty.assignAll pairs).entries, e ∈ pairs := by
    intro e he
    rcases OrderedMap.of_mem_entries_assignAll _ _ he with he | he
    · cases he
    · exact he
  constructor
  · intro r hr
    obtain ⟨e,he,rfl⟩ := List.mem_map.mp hr
    exact ((mem_keyed ingestedAt hpairs e.1 e.2).mp (hentry e he)).1
  · intro r hr
    have hsome := (dedup_isSome ingestedAt).mp (by rw [h]; rfl) r hr
    obtain ⟨key,hkey⟩ := Option.isSome_iff_exists.mp hsome
    have hin : key ∈ (OrderedMap.empty.assignAll pairs).keys :=
      (OrderedMap.mem_assignAll _ _ _).mpr
        (Or.inr (List.mem_map_of_mem ((mem_keyed ingestedAt hpairs key r).mpr ⟨hr,hkey⟩)))
    obtain ⟨e,he,rfl⟩ := List.mem_map.mp hin
    refine ⟨e.2,List.mem_map_of_mem he,?_⟩
    rw [((mem_keyed ingestedAt hpairs e.1 e.2).mp (hentry e he)).2, hkey]

theorem sortRows_eq_some {rows sorted : List ReadingInsert} (h : sortRows rt rows = some sorted) :
    (∀ p ∈ rt.compared (compareRows rt) rows, (compareRows rt p.1 p.2).isSome) ∧
      sorted.Perm rows := by
  unfold sortRows at h
  split at h
  · rename_i hall
    cases h
    exact ⟨fun p hp => List.all_eq_true.mp hall p hp,rt.sorted_perm _ _⟩
  · cases h

theorem sortRows_isSome {rows : List ReadingInsert}
    (h : ∀ p ∈ rt.compared (compareRows rt) rows, (compareRows rt p.1 p.2).isSome) :
    ∃ sorted, sortRows rt rows = some sorted := by
  refine ⟨_,if_pos ?_⟩
  rw [List.all_eq_true]
  exact h

theorem reportMalformed_isSome (entry : Value) :
    (reportMalformed entry).isSome ↔ entry ≠ .null ∧ (shortId entry).isSome := by
  unfold reportMalformed
  by_cases hnull : entry = .null
  · subst hnull
    simp [property]
  · rw [property_eq hnull, Option.bind_some]
    simp [hnull]

theorem normalizeBatch_eq_some (data : List Value) (rows : List ReadingInsert) :
    normalizeBatch rt ingestedAt data = some rows ↔ rows = batchRows rt ingestedAt data ∧
      ∀ entry ∈ data, ¬Expandable rt entry → entry ≠ .null ∧ (shortId entry).isSome := by
  induction data generalizing rows with
  | nil =>
    constructor
    · intro h
      cases h
      exact ⟨rfl,by simp⟩
    · rintro ⟨rfl,-⟩
      rfl
  | cons entry data ih =>
    rw [List.forall_mem_cons, normalizeBatch, batchRows, List.flatMap_cons, ← batchRows,
      ← entryRows_isSome rt ingestedAt entry, ← reportMalformed_isSome]
    cases entryRows rt ingestedAt entry with
    | some now =>
      simp only [Option.map_eq_some_iff, ih, Option.isSome_some, not_true_eq_false, false_implies,
        true_and, Option.getD_some]
      constructor
      · rintro ⟨later,⟨rfl,hall⟩,rfl⟩
        exact ⟨rfl,hall⟩
      · rintro ⟨rfl,hall⟩
        exact ⟨_,⟨rfl,hall⟩,rfl⟩
    | none =>
      simp only [Option.isSome_none, Bool.false_eq_true, not_false_eq_true, true_implies,
        Option.getD_none, List.nil_append]
      cases reportMalformed entry with
      | none => simp
      | some u => simpa using ih rows

theorem batchRows_dates {data : List Value} : ∀ r ∈ batchRows rt ingestedAt data, RowDates r := by
  intro r hr
  obtain ⟨entry,-,hr⟩ := List.mem_flatMap.mp hr
  cases he : entryRows rt ingestedAt entry with
  | none =>
    rw [he] at hr
    cases hr
  | some rows =>
    rw [he] at hr
    exact entryRows_dates rt ingestedAt entry he r hr

theorem forall_batchRows {data : List Value} {P : ReadingInsert → Prop}
    {Q : Value → Field × Field → Prop}
    (hpq : ∀ entry row key, KeyedBy rt entry row key → (P row ↔ Q entry key)) :
    (∀ r ∈ batchRows rt ingestedAt data, P r) ↔
      ∀ entry ∈ data, Expandable rt entry → ∀ key ∈ entryKeys entry, Q entry key := by
  constructor
  · intro h entry hentry hexp key hkey
    obtain ⟨rows,hrows⟩ := Option.isSome_iff_exists.mp
      ((entryRows_isSome rt ingestedAt entry).mpr hexp)
    obtain ⟨row,hrow,hkeyed⟩ := exists_keyed rt ingestedAt entry hrows hkey
    exact (hpq entry row key hkeyed).mp
      (h row (List.mem_flatMap.mpr ⟨entry,hentry,by rw [hrows]; exact hrow⟩))
  · intro h r hr
    obtain ⟨entry,hentry,hr⟩ := List.mem_flatMap.mp hr
    cases hrows : entryRows rt ingestedAt entry with
    | none =>
      rw [hrows] at hr
      cases hr
    | some rows =>
      rw [hrows] at hr
      have hexp := (entryRows_isSome rt ingestedAt entry).mp (by rw [hrows]; rfl)
      rcases entryRows_from rt ingestedAt entry hrows hr with
        ⟨x,-,hkey,hof⟩ | ⟨protocol,data,hkey,hbare⟩
      · exact (hpq entry r _ (readingRow_keyed rt ingestedAt entry hof)).mpr
          (h entry hentry hexp _ hkey)
      · exact (hpq entry r _ (bareRow_keyed rt ingestedAt entry protocol hbare)).mpr
          (h entry hentry hexp _ hkey)

theorem keyed_batch {data : List Value} : (∀ r ∈ batchRows rt ingestedAt data,
      (fieldString r.agent_uuid).isSome ∧ (fieldString r.metric_name).isSome) ↔
    ∀ entry ∈ data, Expandable rt entry → ∀ key ∈ entryKeys entry,
      (fieldString (ofMember (member entry "deviceUuid"))).isSome ∧ (fieldString key.1).isSome := by
  apply forall_batchRows
  rintro entry row key ⟨hagent,hmetric,-⟩
  rw [hagent, hmetric]

theorem dated_batch {data : List Value} : (∀ r ∈ batchRows rt ingestedAt data, r.time ≠ .date none) ↔
    ∀ entry ∈ data, Expandable rt entry → ∀ key ∈ entryKeys entry,
      newDate rt.parse key.2 ≠ some none := by
  apply forall_batchRows
  rintro entry row key ⟨-,-,htime⟩
  obtain ⟨d,hd,ht⟩ := Option.map_eq_some_iff.mp htime
  rw [← ht, hd]
  simp

theorem dedup_batch {data : List Value} {kept : List ReadingInsert}
    (h : dedup ingestedAt (batchRows rt ingestedAt data) = some kept)
    (hkept : ∀ r ∈ kept, r.time ≠ .date none) :
    ∀ r ∈ batchRows rt ingestedAt data, r.time ≠ .date none := by
  obtain ⟨hsub,hkeys⟩ := dedup_spec ingestedAt h
  intro r hr ht
  obtain ⟨r',hr',hkey⟩ := hkeys r hr
  obtain ⟨key,hk⟩ := Option.isSome_iff_exists.mp
    ((dedup_isSome ingestedAt).mp (by rw [h]; rfl) r hr)
  exact hkept r' hr' (invalid_of_rowKey ingestedAt (batchRows_dates rt ingestedAt r' (hsub hr'))
    hk (hkey.trans hk) ht)

theorem insertBatch_eq_some {data : List Value} {rows : List ReadingInsert}
    (h : insertBatch rt ingestedAt data = some rows) :
    (∀ entry ∈ data, ¬Expandable rt entry → entry ≠ .null ∧ (shortId entry).isSome) ∧
      ∃ kept, dedup ingestedAt (batchRows rt ingestedAt data) = some kept ∧
        (∀ p ∈ rt.compared (compareRows rt) kept, (compareRows rt p.1 p.2).isSome) ∧
        rows.Perm kept := by
  obtain ⟨all,hall,h⟩ := Option.bind_eq_some_iff.mp h
  obtain ⟨rfl,hreported⟩ := (normalizeBatch_eq_some rt ingestedAt data all).mp hall
  refine ⟨hreported,?_⟩
  split at h
  · rename_i hnil
    cases h
    refine ⟨[],by rw [hnil]; rfl,?_,List.Perm.refl _⟩
    intro p hp
    exact absurd (rt.compared_mem _ _ p hp).1 List.not_mem_nil
  · obtain ⟨kept,hkept,hsort⟩ := Option.bind_eq_some_iff.mp h
    obtain ⟨hcomp,hperm⟩ := sortRows_eq_some rt hsort
    exact ⟨kept,hkept,hcomp,hperm⟩

theorem insertBatch_of_kept {data : List Value} {kept : List ReadingInsert}
    (hreported : ∀ entry ∈ data, ¬Expandable rt entry → entry ≠ .null ∧ (shortId entry).isSome)
    (hkept : dedup ingestedAt (batchRows rt ingestedAt data) = some kept)
    (hcomp : ∀ p ∈ rt.compared (compareRows rt) kept, (compareRows rt p.1 p.2).isSome) :
    ∃ rows, insertBatch rt ingestedAt data = some rows ∧ rows.Perm kept := by
  have hall := (normalizeBatch_eq_some rt ingestedAt data _).mpr ⟨rfl,hreported⟩
  unfold insertBatch
  rw [hall, Option.bind_some]
  split
  · rename_i hnil
    rw [hnil] at hkept
    cases hkept
    exact ⟨[],rfl,List.Perm.refl _⟩
  · obtain ⟨sorted,hsorted⟩ := sortRows_isSome rt hcomp
    rw [hkept, Option.bind_some, hsorted]
    exact ⟨sorted,rfl,(sortRows_eq_some rt hsorted).2⟩

theorem batch_isolated_iff (data : List Value) :
    Isolated rt ingestedAt now data ↔ Unpoisoned rt ingestedAt data := by
  have hdates : ∀ r ∈ batchRows rt ingestedAt data, RowDates r := batchRows_dates rt ingestedAt
  constructor
  · rintro ⟨rows,hrows,hdelivered,hlines⟩
    obtain ⟨hreported,kept,hkept,hcomp,hperm⟩ := insertBatch_eq_some rt ingestedAt hrows
    obtain ⟨hsub,hkeys⟩ := dedup_spec ingestedAt hkept
    refine ⟨hreported,?_,?_,?_,?_⟩
    · intro entry hentry _ x hx hwell
      obtain ⟨row,hrow,r,hr,hkey⟩ := hdelivered entry hentry x hx hwell
      exact ⟨row,hrow,r,hsub (hperm.mem_iff.mp hr),hkey⟩
    · rw [← keyed_batch]
      intro r hr
      rw [← rowKey_isSome ingestedAt (hdates r hr)]
      exact (dedup_isSome ingestedAt).mp (by rw [hkept]; rfl) r hr
    · rw [← dated_batch]
      apply dedup_batch rt ingestedAt hkept
      intro r hr
      rw [← toCopyLine_isSome now (hdates r (hsub hr))]
      exact hlines r (hperm.mem_iff.mpr hr)
    · intro rows' hrows'
      rw [hkept, Option.some.injEq] at hrows'
      rw [← hrows']
      exact hcomp
  · intro h
    have hkeyed : (dedup ingestedAt (batchRows rt ingestedAt data)).isSome := by
      rw [dedup_isSome]
      intro r hr
      rw [rowKey_isSome ingestedAt (hdates r hr)]
      exact (keyed_batch rt ingestedAt).mpr h.keyed r hr
    obtain ⟨kept,hkept⟩ := Option.isSome_iff_exists.mp hkeyed
    obtain ⟨hsub,hkeys⟩ := dedup_spec ingestedAt hkept
    obtain ⟨rows,hrows,hperm⟩ :=
      insertBatch_of_kept rt ingestedAt h.reported hkept (h.comparable kept hkept)
    -- a row of the batch has its key among the rows that are passed on
    have hpassed : ∀ r ∈ batchRows rt ingestedAt data, ∃ r' ∈ rows,
        rowKey ingestedAt r' = rowKey ingestedAt r := by
      intro r hr
      obtain ⟨r',hr',hkey⟩ := hkeys r hr
      exact ⟨r',hperm.mem_iff.mpr hr',hkey⟩
    refine ⟨rows,hrows,?_,?_⟩
    · intro entry hentry x hx hwell
      by_cases hexp : Expandable rt entry
      · obtain ⟨now',hnow⟩ := Option.isSome_iff_exists.mp
          ((entryRows_isSome rt ingestedAt entry).mpr hexp)
        obtain ⟨row,hin,hrow⟩ := rowOf_mem rt ingestedAt entry hnow hx hwell.2.1
        have hbatch : row ∈ batchRows rt ingestedAt data :=
          List.mem_flatMap.mpr ⟨entry,hentry,by rw [hnow]; exact hin⟩
        exact ⟨row,hrow,hpassed row hbatch⟩
      · obtain ⟨row,hrow,r,hr,hkey⟩ := h.spared entry hentry hexp x hx hwell
        obtain ⟨r',hr',hkey'⟩ := hpassed r hr
        exact ⟨row,hrow,r',hr',hkey'.trans hkey⟩
    · intro r hr
      have hin := hsub (hperm.mem_iff.mp hr)
      rw [toCopyLine_isSome now (hdates r hin)]
      exact (dated_batch rt ingestedAt).mpr h.dated r hin

end

/-- A date that is parsed, the order of code units, and a sort that compares
every row with the one before it. -/
def plainRuntime : Runtime where
  parse s := if s = "1970-01-01T00:00:00Z" then some epoch else none
  localeCompare s t := if s = t then 0 else if JsSort.unitsLe s t then -1 else 1
  sorted compare rows := rows.insertionSort (fun a b => (compare a b).getD 0 ≤ 0)
  compared _ rows := rows.tail.zip rows
  sorted_perm _ rows := List.perm_insertionSort _ rows
  compared_mem _ rows p hp := by
    obtain ⟨h,h'⟩ := List.of_mem_zip hp
    exact ⟨List.mem_of_mem_tail h,h'⟩

def goodReading : Value := .obj [("metric",.str "temperature"),("value",.num Decimal.zero)]

def poisonedEntry : Value :=
  .obj [("deviceUuid",.str "11111111-1111-4111-8111-111111111111"),("deviceName",.str "pump"),
    ("timestamp",.str "1970-01-01T00:00:00Z"),("data",.obj [("readings",.arr [goodReading,.null])])]

theorem batch_poisoned :
    (¬Isolated plainRuntime epoch epoch [.null]) ∧
    (¬Isolated plainRuntime epoch epoch [poisonedEntry]) ∧
    ¬∀ (rt : Runtime) (ingestedAt now : DateValue) (data : List Value),
      Isolated rt ingestedAt now data := by
  have hnull : ¬Isolated plainRuntime epoch epoch [.null] := by
    rintro ⟨rows,hrows,-⟩
    cases hrows
  refine ⟨hnull,?_,fun h => hnull (h _ _ _ _)⟩
  rintro ⟨rows,hrows,hdelivered,-⟩
  have hnone : insertBatch plainRuntime epoch [poisonedEntry] = some [] := by
    rfl
  rw [hnone] at hrows
  cases hrows
  have hread : (goodReading,none,some (.obj [("readings",.arr [goodReading,.null])])) ∈
      formatReadings poisonedEntry := List.mem_cons_self
  obtain ⟨-,-,r,hr,-⟩ := hdelivered poisonedEntry List.mem_cons_self _ hread
    ⟨⟨_,rfl⟩,by decide,by decide⟩
  cases hr

end Iotistica.EntryRows
