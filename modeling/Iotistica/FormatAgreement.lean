import Iotistica.EntryRows

/-!
# Three formats of one list of readings

The readings of a device come in messages, in one list, or one by one. A
reading on its own is its entry's data too: a metadata node then comes back as
a row after all, and a reading without a metric takes its own device's name
where the others take that of the header.
-/

set_option autoImplicit false

namespace Iotistica.EntryRows
open Iotistica.JsonText Iotistica.CopyReadings
open Iotistica.Readings (extractDeviceIdentity normalizeQuality nonEmpty trim)

structure EntryHeader where
  deviceUuid : String
  deviceName : String
  timestamp : String
  metadata : Option Members

def EntryHeader.entry (h : EntryHeader) (data : Value) : Value :=
  .obj ([("deviceUuid",.str h.deviceUuid),("deviceName",.str h.deviceName),
    ("timestamp",.str h.timestamp),("data",data)]++
      (h.metadata.map (fun m => ("metadata",Value.obj m))).toList)

def oneMessage (r : Members) : Value := .obj [("readings",.arr [.obj r])]

def inMessages (rs : List Members) : Value := .obj [("messages",.arr (rs.map oneMessage))]

def inOneList (rs : List Members) : Value := .obj [("readings",.arr (rs.map Value.obj))]

section
variable (parse : String → Option DateValue) (h : EntryHeader) (protocol : String)
  (ingestedAt : DateValue)

def expandFormat (data : Value) : Option (List ReadingInsert) :=
  expandMessages parse (h.entry data) protocol ingestedAt

def oneByOne (rs : List Members) : Option (List ReadingInsert) :=
  (rs.mapM (fun r => expandFormat parse h protocol ingestedAt (.obj r))).map List.flatten

def plainReadings (rs : List Members) : List Members := rs.filter (fun r => !isMetadata (.obj r))

structure FormatsAgree (rs : List Members) : Prop where
  list : expandFormat parse h protocol ingestedAt (inMessages rs) =
    expandFormat parse h protocol ingestedAt (inOneList rs)
  single : expandFormat parse h protocol ingestedAt (inOneList rs) =
    oneByOne parse h protocol ingestedAt rs
  noneInMessages : expandFormat parse h protocol ingestedAt (inMessages rs) =
    expandFormat parse h protocol ingestedAt (inMessages (plainReadings rs))
  noneInList : expandFormat parse h protocol ingestedAt (inOneList rs) =
    expandFormat parse h protocol ingestedAt (inOneList (plainReadings rs))
  noneSingle : oneByOne parse h protocol ingestedAt rs =
    oneByOne parse h protocol ingestedAt (plainReadings rs)

end

/-- A reading with a timestamp, which holds no list of messages or readings. -/
structure PlainReading (r : Members) : Prop where
  timestamp : ∃ t, r.lookup "timestamp" = some t ∧ ((∃ s, t = .str s) ∨ ∃ d, t = .num d)
  messages : r.lookup "messages" = none
  readings : r.lookup "readings" = none

def EntryHeader.givenName (h : EntryHeader) : Option String := nonEmpty (trim h.deviceName)

/-- The name where neither the header nor the data has one. -/
def EntryHeader.lastName (h : EntryHeader) : String :=
  (deviceNameOf (h.metadata.map Value.obj)).getD "unknown"

def hasMetric (r : Members) : Bool :=
  (firstTruthy [r.lookup "metric",r.lookup "nodeName",r.lookup "name"]).isSome

theorem resolve_entry (h : EntryHeader) (data : Value) :
    resolveEntryDeviceName (h.entry data) =
      (h.givenName.or (deviceNameOf (some data))).getD h.lastName := by
  have hmeta : member (h.entry data) "metadata" = h.metadata.map Value.obj := by
    cases hm : h.metadata with
    | none => simp [EntryHeader.entry, member, hm]
    | some m => simp [EntryHeader.entry, member, hm, List.lookup_cons]
  have hdata : member (h.entry data) "data" = some data := by
    simp [EntryHeader.entry, member, List.lookup_cons]
  have hname : stringMember (h.entry data) "deviceName" = some h.deviceName := by
    simp [EntryHeader.entry, stringMember, member, List.lookup_cons]
  unfold resolveEntryDeviceName EntryHeader.lastName
  rw [hmeta, hdata, hname, Option.bind_some]
  show ((h.givenName.or (deviceNameOf (some data))).or _).getD "unknown" = _
  cases h.givenName.or (deviceNameOf (some data)) with
  | none => rfl
  | some name => rfl

/-- The row of a reading whose device is called `name`. -/
def formatRow (parse : String → Option DateValue) (h : EntryHeader) (protocol : String)
    (ingestedAt : DateValue) (name : String) (r : Members) : ReadingInsert :=
  let extra := buildExtraPayload (some (.obj r)) ingestedAt none
  { agent_uuid := .string h.deviceUuid
    metric_name := metricName (.obj r) name
    value := numberMember (.obj r) "value" .null
    quality := .string (normalizeQuality (rawQuality (r.lookup "quality")))
    unit := unitOf (.obj r)
    protocol := .string protocol
    extra := .object extra
    extraJson := .string (stringify extra)
    time := .date ((newDate parse (ofMember ((firstTruthy [r.lookup "timestamp"]).or
      (some (.str h.timestamp))))).getD none)
    anomaly_score := numberMember (.obj r) "anomaly_score" .undefined
    anomaly_threshold := numberMember (.obj r) "anomaly_threshold" .undefined
    baseline_samples := numberMember (.obj r) "baseline_samples" .undefined
    detection_methods := ofMember (detectionMethods (.obj r))
    detectionMethodsJson :=
      ofMember ((detectionMethods (.obj r)).map (fun v => .str (stringify v))) }

theorem member_entry (h : EntryHeader) (data : Value) :
    member (h.entry data) "deviceUuid" = some (.str h.deviceUuid) ∧
    member (h.entry data) "timestamp" = some (.str h.timestamp) ∧
    member (h.entry data) "data" = some data := by
  simp [EntryHeader.entry, member, List.lookup_cons]

theorem buildExtraPayload_context (v context : Value) (ingestedAt : DateValue)
    (hc : context = v ∨ identityOf context = Readings.noIdentity) :
    buildExtraPayload (some v) ingestedAt (some context) =
      buildExtraPayload (some v) ingestedAt none := by
  rcases hc with rfl | hc
  · simp [buildExtraPayload]
  · have hnone : ∀ f : Option String, f.or (none : Option String) = f := fun f => by cases f <;> rfl
    have hid : extractDeviceIdentity (identityOf context) = ⟨none,none,none⟩ := by
      rw [hc]
      rfl
    simp [buildExtraPayload, hid, hnone]

section
variable (parse : String → Option DateValue) (h : EntryHeader) (protocol : String)
  (ingestedAt : DateValue)

theorem newDate_timestamp {r : Members} (hr : PlainReading r) :
    ∃ time, newDate parse (ofMember ((firstTruthy [r.lookup "timestamp"]).or
      (some (.str h.timestamp)))) = some time := by
  obtain ⟨t,ht,hkind⟩ := hr.timestamp
  rw [ht]
  by_cases htruthy : truthy t = true
  · have hfirst : firstTruthy [some t] = some t := by simp [firstTruthy, htruthy]
    rw [hfirst, Option.some_or]
    rcases hkind with ⟨s,rfl⟩ | ⟨d,rfl⟩
    · exact ⟨parse s,rfl⟩
    · exact ⟨timeClip d,rfl⟩
  · have hfirst : firstTruthy [some t] = none := by simp [firstTruthy, htruthy]
    rw [hfirst, Option.none_or]
    exact ⟨parse h.timestamp,rfl⟩

theorem normalizeReading_format {r : Members} (hr : PlainReading r) (data context : Value)
    (hc : context = .obj r ∨ identityOf context = Readings.noIdentity) :
    normalizeReading parse (.obj r) (h.entry data) protocol ingestedAt none (some context) =
      some (if isMetadata (.obj r) then none
        else some (formatRow parse h protocol ingestedAt (resolveEntryDeviceName (h.entry data)) r)) := by
  obtain ⟨huuid,htime,-⟩ := member_entry h data
  have hused : usedTimestamp (.obj r) (h.entry data) none =
      (firstTruthy [r.lookup "timestamp"]).or (some (.str h.timestamp)) := by
    unfold usedTimestamp
    rw [htime]
    show (firstTruthy [r.lookup "timestamp",none]).or _ = _
    cases r.lookup "timestamp" with
    | none => rfl
    | some t => simp [firstTruthy]
  obtain ⟨time,hdate⟩ := newDate_timestamp parse h hr
  unfold normalizeReading
  show (some (member (.obj r) "nodeType")).bind _ = _
  rw [Option.bind_some]
  by_cases hm : isMetadata (.obj r) = true
  · rw [if_pos hm, if_pos hm]
    simp [shortId, huuid]
  · rw [if_neg hm, if_neg hm]
    unfold readingRow
    dsimp only
    rw [hused, hdate, huuid, buildExtraPayload_context _ _ _ hc, Option.map_some, Option.map_some]
    unfold formatRow
    rw [hdate]
    rfl

def formatRows (parse : String → Option DateValue) (h : EntryHeader) (protocol : String)
    (ingestedAt : DateValue) (name : String) (rs : List Members) : List ReadingInsert :=
  (plainReadings rs).map (formatRow parse h protocol ingestedAt name)

theorem formatRows_cons (name : String) (r : Members) (rs : List Members) :
    formatRows parse h protocol ingestedAt name (r::rs) =
      (if isMetadata (.obj r) then none
        else some (formatRow parse h protocol ingestedAt name r)).toList++
        formatRows parse h protocol ingestedAt name rs := by
  unfold formatRows plainReadings
  by_cases hm : isMetadata (.obj r) = true
  · simp [hm]
  · simp [hm]

theorem normalizeAll_format {rs : List Members} (hrs : ∀ r ∈ rs, PlainReading r)
    (data context : Value) (hc : identityOf context = Readings.noIdentity) :
    normalizeAll parse (h.entry data) protocol ingestedAt none (some context) (rs.map Value.obj) =
      some (formatRows parse h protocol ingestedAt (resolveEntryDeviceName (h.entry data)) rs) := by
  induction rs with
  | nil => rfl
  | cons r rs ih =>
    have ih' := ih (fun x hx => hrs x (List.mem_cons_of_mem _ hx))
    rw [List.map_cons, normalizeAll,
      normalizeReading_format parse h protocol ingestedAt (hrs r List.mem_cons_self) data context
        (Or.inr hc), ih',
      formatRows_cons]
    rfl

theorem expandFormat1_format {rs : List Members} (hrs : ∀ r ∈ rs, PlainReading r) (data : Value) :
    expandFormat1 parse (h.entry data) protocol ingestedAt (rs.map oneMessage) =
      some (formatRows parse h protocol ingestedAt (resolveEntryDeviceName (h.entry data)) rs) := by
  induction rs with
  | nil => rfl
  | cons r rs ih =>
    have ih' := ih (fun x hx => hrs x (List.mem_cons_of_mem _ hx))
    have hone := normalizeReading_format parse h protocol ingestedAt (hrs r List.mem_cons_self)
      data (oneMessage r) (Or.inr rfl)
    rw [List.map_cons, expandFormat1, ih', formatRows_cons]
    show ((normalizeAll parse (h.entry data) protocol ingestedAt none (some (oneMessage r))
      [.obj r]).bind _) = _
    rw [normalizeAll, hone]
    simp [normalizeAll]

theorem resolve_nameless (data : Value) (hd : deviceNameOf (some data) = none) :
    resolveEntryDeviceName (h.entry data) = h.givenName.getD h.lastName := by
  rw [resolve_entry, hd]
  cases h.givenName <;> rfl

theorem expand_inMessages {rs : List Members} (hrs : ∀ r ∈ rs, PlainReading r) :
    expandFormat parse h protocol ingestedAt (inMessages rs) =
      some (formatRows parse h protocol ingestedAt (h.givenName.getD h.lastName) rs) := by
  have hrows := expandFormat1_format parse h protocol ingestedAt hrs (inMessages rs)
  rw [resolve_nameless h (inMessages rs) rfl] at hrows
  rw [← hrows]
  unfold expandFormat expandMessages
  show (some (member (h.entry (inMessages rs)) "data")).bind _ = _
  rw [(member_entry h _).2.2, Option.bind_some]
  rfl

theorem expand_inOneList {rs : List Members} (hrs : ∀ r ∈ rs, PlainReading r) :
    expandFormat parse h protocol ingestedAt (inOneList rs) =
      some (formatRows parse h protocol ingestedAt (h.givenName.getD h.lastName) rs) := by
  have hrows := normalizeAll_format parse h protocol ingestedAt hrs (inOneList rs) (inOneList rs) rfl
  rw [resolve_nameless h (inOneList rs) rfl] at hrows
  rw [← hrows]
  unfold expandFormat expandMessages
  show (some (member (h.entry (inOneList rs)) "data")).bind _ = _
  rw [(member_entry h _).2.2, Option.bind_some]
  rfl

def ownName (r : Members) : String :=
  (h.givenName.or (deviceNameOf (some (.obj r)))).getD h.lastName

theorem expand_single {r : Members} (hr : PlainReading r) :
    ∃ row, expandFormat parse h protocol ingestedAt (.obj r) = some [row] ∧
      (isMetadata (.obj r) = false →
        row = formatRow parse h protocol ingestedAt (ownName h r) r) := by
  have hnorm := normalizeReading_format parse h protocol ingestedAt hr (.obj r) (.obj r) (Or.inl rfl)
  obtain ⟨huuid,htime,hdata⟩ := member_entry h (.obj r)
  have hthree : expandFormat parse h protocol ingestedAt (.obj r) =
      expandFormat3 parse (h.entry (.obj r)) protocol ingestedAt (some (.obj r)) := by
    unfold expandFormat expandMessages
    show (some (member (h.entry (.obj r)) "data")).bind _ = _
    have hm : member (.obj r) "messages" = none := hr.messages
    have hl : member (.obj r) "readings" = none := hr.readings
    rw [hdata, Option.bind_some]
    simp only [Option.bind_some, hm, hl]
  rw [hthree]
  unfold expandFormat3
  dsimp only
  rw [hnorm]
  by_cases hm : isMetadata (.obj r) = true
  · rw [if_pos hm, Option.bind_some]
    unfold bareRow
    rw [htime]
    exact ⟨_,rfl,fun hf => absurd hm (by rw [hf]; decide)⟩
  · rw [if_neg hm, Option.bind_some]
    exact ⟨_,rfl,fun _ => by rw [resolve_entry]; rfl⟩

theorem oneByOne_length {rs : List Members} (hrs : ∀ r ∈ rs, PlainReading r) :
    ∃ rows, oneByOne parse h protocol ingestedAt rs = some rows ∧ rows.length = rs.length := by
  induction rs with
  | nil => exact ⟨[],rfl,rfl⟩
  | cons r rs ih =>
    obtain ⟨rows,hrows,hl⟩ := ih (fun x hx => hrs x (List.mem_cons_of_mem _ hx))
    obtain ⟨row,hrow,-⟩ := expand_single parse h protocol ingestedAt (hrs r List.mem_cons_self)
    obtain ⟨parts,hparts,rfl⟩ := Option.map_eq_some_iff.mp hrows
    refine ⟨row::parts.flatten,?_,by rw [List.length_cons, hl, List.length_cons]⟩
    simp [oneByOne, hrow, hparts]

theorem oneByOne_plain {rs : List Members} (hrs : ∀ r ∈ rs, PlainReading r)
    (hplain : ∀ r ∈ rs, isMetadata (.obj r) = false) :
    oneByOne parse h protocol ingestedAt rs =
      some (rs.map (fun r => formatRow parse h protocol ingestedAt (ownName h r) r)) := by
  induction rs with
  | nil => rfl
  | cons r rs ih =>
    have ih' := ih (fun x hx => hrs x (List.mem_cons_of_mem _ hx))
      (fun x hx => hplain x (List.mem_cons_of_mem _ hx))
    obtain ⟨row,hrow,heq⟩ := expand_single parse h protocol ingestedAt (hrs r List.mem_cons_self)
    obtain ⟨parts,hparts,hflat⟩ := Option.map_eq_some_iff.mp ih'
    have hrow' := heq (hplain r List.mem_cons_self)
    subst hrow'
    simp [oneByOne, hrow, hparts, hflat]

theorem formatRow_inj {name name' : String} {r : Members}
    (he : formatRow parse h protocol ingestedAt name r =
      formatRow parse h protocol ingestedAt name' r) : hasMetric r = true ∨ name = name' := by
  have hname := congrArg ReadingInsert.metric_name he
  have hlook : firstTruthy [member (.obj r) "metric",member (.obj r) "nodeName",member (.obj r) "name"] =
      firstTruthy [r.lookup "metric",r.lookup "nodeName",r.lookup "name"] := rfl
  simp only [formatRow, metricName, hlook] at hname
  unfold hasMetric
  cases hf : firstTruthy [r.lookup "metric",r.lookup "nodeName",r.lookup "name"] with
  | some v => exact Or.inl rfl
  | none =>
    rw [hf] at hname
    exact Or.inr (Field.string.inj hname)

theorem formatRow_congr {name name' : String} {r : Members}
    (hn : hasMetric r = true ∨ name = name') :
    formatRow parse h protocol ingestedAt name r =
      formatRow parse h protocol ingestedAt name' r := by
  rcases hn with hm | rfl
  · have hname : metricName (.obj r) name = metricName (.obj r) name' := by
      obtain ⟨v,hv⟩ := Option.isSome_iff_exists.mp hm
      have hlook : firstTruthy [member (.obj r) "metric",member (.obj r) "nodeName",
          member (.obj r) "name"] = some v := hv
      simp only [metricName, hlook]
    simp only [formatRow, hname]
  · rfl

theorem givenName_ownName (r : Members) :
    h.givenName.getD h.lastName = ownName h r ↔
      h.givenName.isSome = true ∨ (deviceNameOf (some (.obj r))).getD h.lastName = h.lastName := by
  unfold ownName
  cases h.givenName with
  | some name => simp
  | none => simp [eq_comm]

theorem formats_agree_iff (rs : List Members) (hrs : ∀ r ∈ rs, PlainReading r) :
    FormatsAgree parse h protocol ingestedAt rs ↔ ∀ r ∈ rs, isMetadata (.obj r) = false ∧
      (hasMetric r = true ∨ h.givenName.isSome = true ∨
        (deviceNameOf (some (.obj r))).getD h.lastName = h.lastName) := by
  have hkeep : ∀ r ∈ plainReadings rs, PlainReading r := fun r hr => hrs r (List.mem_filter.mp hr).1
  constructor
  · intro ha
    obtain ⟨rows,hrows,hl⟩ := oneByOne_length parse h protocol ingestedAt hrs
    obtain ⟨rows',hrows',hl'⟩ := oneByOne_length parse h protocol ingestedAt hkeep
    have hsame := ha.noneSingle
    rw [hrows, hrows', Option.some.injEq] at hsame
    have hall : ∀ r ∈ rs, (!isMetadata (.obj r)) = true := by
      apply List.length_filter_eq_length_iff.mp
      rw [← hl, hsame, hl']
      rfl
    have hplain : ∀ r ∈ rs, isMetadata (.obj r) = false := fun r hr => by simpa using hall r hr
    have hlist := ha.single
    rw [expand_inOneList parse h protocol ingestedAt hrs,
      oneByOne_plain parse h protocol ingestedAt hrs hplain, Option.some.injEq, formatRows,
      plainReadings, List.filter_eq_self.mpr hall] at hlist
    intro r hr
    refine ⟨hplain r hr,?_⟩
    rw [← givenName_ownName]
    exact formatRow_inj parse h protocol ingestedAt (List.map_inj_left.mp hlist r hr)
  · intro hc
    have hall : plainReadings rs = rs := by
      apply List.filter_eq_self.mpr
      intro r hr
      simp [(hc r hr).1]
    refine ⟨?_,?_,?_,?_,?_⟩
    · rw [expand_inMessages parse h protocol ingestedAt hrs,
        expand_inOneList parse h protocol ingestedAt hrs]
    · rw [expand_inOneList parse h protocol ingestedAt hrs,
        oneByOne_plain parse h protocol ingestedAt hrs (fun r hr => (hc r hr).1), formatRows, hall]
      congr 1
      apply List.map_congr_left
      intro r hr
      apply formatRow_congr
      rw [givenName_ownName]
      exact (hc r hr).2
    · rw [hall]
    · rw [hall]
    · rw [hall]

end

def noDates (_ : String) : Option DateValue := none

def blankHeader : EntryHeader := ⟨"11111111-1111-4111-8111-111111111111","","2024-01-01T00:00:00Z",none⟩

def stamp : String × Value := ("timestamp",.str "2024-01-01T00:00:01Z")

def temperature : Members := [("metric",.str "temperature"),("value",.num Decimal.zero),stamp]

def nodeInfo : Members := [("nodeType",.str "metadata"),("metric",.str "unit"),stamp]

def pumpValue : Members := [("deviceName",.str "pump"),("value",.num Decimal.zero),stamp]

theorem plainReading_stamp {r : Members} (ht : r.lookup "timestamp" = some stamp.2)
    (hm : r.lookup "messages" = none) (hr : r.lookup "readings" = none) : PlainReading r :=
  ⟨⟨_,ht,Or.inl ⟨_,rfl⟩⟩,hm,hr⟩

theorem temperatures_agree :
    FormatsAgree noDates blankHeader "mqtt" epoch [temperature,temperature] := by
  have hplain : ∀ r ∈ [temperature,temperature], PlainReading r := by
    simp only [List.forall_mem_cons, List.not_mem_nil, false_implies, implies_true, and_true, and_self]
    exact plainReading_stamp rfl rfl rfl
  apply (formats_agree_iff noDates blankHeader "mqtt" epoch _ hplain).mpr
  simp only [List.forall_mem_cons, List.not_mem_nil, false_implies, implies_true, and_true, and_self]
  exact ⟨rfl,Or.inl rfl⟩

theorem formats_disagree :
    (¬FormatsAgree noDates blankHeader "mqtt" epoch [nodeInfo]) ∧
    (¬FormatsAgree noDates blankHeader "mqtt" epoch [pumpValue]) ∧
    ¬∀ (parse : String → Option DateValue) (h : EntryHeader) (protocol : String)
      (ingestedAt : DateValue) (rs : List Members), (∀ r ∈ rs, PlainReading r) →
      FormatsAgree parse h protocol ingestedAt rs := by
  have hinfo : ∀ r ∈ [nodeInfo], PlainReading r := by
    simpa using plainReading_stamp rfl rfl rfl
  have hpump : ∀ r ∈ [pumpValue], PlainReading r := by
    simpa using plainReading_stamp rfl rfl rfl
  have hnode : ¬FormatsAgree noDates blankHeader "mqtt" epoch [nodeInfo] := by
    intro ha
    obtain ⟨rows,hrows,hl⟩ := oneByOne_length noDates blankHeader "mqtt" epoch hinfo
    have hsame := ha.noneSingle
    rw [hrows] at hsame
    cases hsame
    cases hl
  refine ⟨hnode,?_,fun h => hnode (h _ _ _ _ _ hinfo)⟩
  intro ha
  have hplain : ∀ r ∈ [pumpValue], isMetadata (.obj r) = false := by
    simp only [List.forall_mem_cons, List.not_mem_nil, false_implies, implies_true, and_true]
    rfl
  have hlist := ha.single
  rw [expand_inOneList noDates blankHeader "mqtt" epoch hpump,
    oneByOne_plain noDates blankHeader "mqtt" epoch hpump hplain, Option.some.injEq] at hlist
  rcases formatRow_inj noDates blankHeader "mqtt" epoch (List.cons.inj hlist).1 with hm | hn
  · cases hm
  · exact absurd hn (by decide)

end Iotistica.EntryRows
