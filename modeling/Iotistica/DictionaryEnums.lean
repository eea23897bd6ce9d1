import Iotistica.DictionaryMessage
import Iotistica.GuardedRun

/-!
# Enum codes of metrics and devices

The agent counts how often a metric or a device name is seen under a
protocol and gives it the protocol's next code when it was seen often
enough. An observation may pause while its count is saved, and others go on
in between. The cloud keeps the tables of the last full sync and looks a
code up in the tables of all protocols.
-/

set_option autoImplicit false

namespace Iotistica.DictionaryEnums
open Iotistica Iotistica.GuardedRun Iotistica.DictionaryCodec

abbrev ProtocolTables := OrderedMap String EnumTable

/-- A protocol is one of a few words; none of them is a name that objects
inherit or that they list by its value. -/
structure ProtocolName where
  text : String
  plain : text ∉ inheritedNames ∧ allDigits text = false

structure Limits where
  threshold : ℕ
  stabilitySize : ℕ

def metricLimits : Limits := ⟨50,20⟩
def deviceLimits : Limits := ⟨10,10⟩
def stabilityTimeMs : ℤ := 5*60*1000

/-- The enums of a field, its counts, and the observations that wait for
their count to be saved. -/
structure EnumLearner where
  tables : ProtocolTables := OrderedMap.empty
  stats : OrderedMap String ℕ := OrderedMap.empty
  stable : Bool := false
  waiting : List (String × String) := []

/-- `tables[protocol]?.[value]` is truthy: codes start at one, and what
objects inherit is truthy as well. -/
def isPromoted (tables : ProtocolTables) (protocol value : String) : Bool :=
  (tables.get? protocol).any (fun t => (tableGet t value).isSome)

def totalPromoted (tables : ProtocolTables) : ℕ :=
  tables.entries.foldl (fun total e => total+e.2.size) 0

def checkStability (lim : Limits) (l : EnumLearner) (sinceLastPromotionMs : ℤ) : EnumLearner :=
  if l.stable then l
  else if lim.stabilitySize ≤ totalPromoted l.tables ∧ stabilityTimeMs ≤ sinceLastPromotionMs then
    { l with stable := true }
  else l

/-- A first promotion leaves an empty table behind even if the value turns
out to be inherited. -/
def promote (lim : Limits) (l : EnumLearner) (protocol value : String)
    (sinceLastPromotionMs : ℤ) : EnumLearner :=
  let tables := if l.tables.get? protocol = none then l.tables.set protocol OrderedMap.empty
    else l.tables
  let table := (tables.get? protocol).getD OrderedMap.empty
  if (tableGet table value).isSome then { l with tables := tables }
  else checkStability lim
    { l with tables := tables.set protocol (table.set value (table.size+1)) } sinceLastPromotionMs

def statsKey (protocol value : String) : String := protocol++":"++value

def countOf (l : EnumLearner) (protocol value : String) : ℕ :=
  (l.stats.get? (statsKey protocol value)).getD 0

def settle (lim : Limits) (l : EnumLearner) (protocol value : String)
    (sinceLastPromotionMs : ℤ) : EnumLearner :=
  if lim.threshold ≤ countOf l protocol value ∧ isPromoted l.tables protocol value = false then
    promote lim l protocol value sinceLastPromotionMs
  else l

def observe (lim : Limits) (l : EnumLearner) (protocol : Option ProtocolName) (value : String)
    (sinceLastPromotionMs : ℤ) : EnumLearner :=
  match protocol with
  | none => l
  | some p =>
    if p.text = "" ∨ l.stable = true ∨ isPromoted l.tables p.text value = true then l
    else
      let count := countOf l p.text value+1
      let l := { l with stats := l.stats.set (statsKey p.text value) count }
      -- every tenth count is saved first
      if count % 10 = 0 then { l with waiting := l.waiting++[(p.text,value)] }
      else settle lim l p.text value sinceLastPromotionMs

/-- The count of the `k`-th waiting observation is saved. -/
def resume (lim : Limits) (l : EnumLearner) (k : ℕ) (sinceLastPromotionMs : ℤ) : EnumLearner :=
  match l.waiting[k]? with
  | some (protocol,value) =>
    settle lim { l with waiting := l.waiting.eraseIdx k } protocol value sinceLastPromotionMs
  | none => l

def observeMetric := observe metricLimits
def observeDevice := observe deviceLimits

/-- `encodeMetadataValue` of a metric or a device, with the tables of the
field. -/
def encodeMetadataValue (tables : ProtocolTables) (protocol : Option ProtocolName)
    (value : String) : Json :=
  match protocolTable tables (protocol.map ProtocolName.text) with
  | some (some t) => (tableGet t value).getD (.prim (.str value))
  | _ => .prim (.str value)

/-- The agent writes the device tables under `devices`, the cloud reads
`agents`. -/
structure DictionaryPayload where
  metrics : Option ProtocolTables := none
  devices : Option ProtocolTables := none
  agents : Option ProtocolTables := none

structure CloudStore where
  metrics : Option ProtocolTables := none
  agents : Option ProtocolTables := none

def storeDictionary (store : CloudStore) (dict : DictionaryPayload) : CloudStore where
  metrics := dict.metrics <|> store.metrics
  agents := dict.agents <|> store.agents

def getEnumMappings (store : CloudStore) : EnumTables where
  unit := none
  qualityCode := OrderedMap.empty
  metrics := store.metrics.getD OrderedMap.empty
  devices := store.agents.getD OrderedMap.empty

structure Link where
  metric : EnumLearner := {}
  device : EnumLearner := {}
  cloud : CloudStore := {}

def fullPayload (m : Link) : DictionaryPayload where
  metrics := some m.metric.tables
  devices := some m.device.tables

inductive Event
  | metricSeen (protocol : Option ProtocolName) (metric : String) (sinceLastPromotionMs : ℤ)
  | metricSaved (k : ℕ) (sinceLastPromotionMs : ℤ)
  | deviceSeen (protocol : Option ProtocolName) (deviceName : String) (sinceLastPromotionMs : ℤ)
  | deviceSaved (k : ℕ) (sinceLastPromotionMs : ℤ)
  | sync

def step (m : Link) : Event → Link
  | .metricSeen protocol metric ms => { m with metric := observeMetric m.metric protocol metric ms }
  | .metricSaved k ms => { m with metric := resume metricLimits m.metric k ms }
  | .deviceSeen protocol deviceName ms =>
    { m with device := observeDevice m.device protocol deviceName ms }
  | .deviceSaved k ms => { m with device := resume deviceLimits m.device k ms }
  | .sync => { m with cloud := storeDictionary m.cloud (fullPayload m) }

structure Indexed (t : EnumTable) : Prop where
  bound : ∀ e ∈ t.entries, e.2 ≤ t.size
  distinct : (t.entries.map Prod.snd).Nodup

theorem indexed_empty : Indexed OrderedMap.empty := ⟨by simp [OrderedMap.empty],by
  simp [OrderedMap.empty]⟩

theorem indexed_set {t : EnumTable} (h : Indexed t) {value : String}
    (hnew : t.get? value = none) : Indexed (t.set value (t.size+1)) := by
  have hkey : value ∉ t.keys := OrderedMap.not_mem_keys_of_get? hnew
  have hentries : (t.set value (t.size+1)).entries = t.entries++[(value,t.size+1)] := by
    simp [OrderedMap.set, hkey]
  have hsize : (t.set value (t.size+1)).size = t.size+1 := by
    rw [OrderedMap.size_set, if_neg hkey]
  constructor
  · intro e he
    rw [hentries] at he
    rw [hsize]
    rcases List.mem_append.mp he with he | he
    · exact Nat.le_succ_of_le (h.bound e he)
    · obtain rfl := List.mem_singleton.mp he
      exact Nat.le_refl _
  · rw [hentries, List.map_append, List.nodup_append]
    refine ⟨h.distinct,by simp,?_⟩
    intro a ha b hb hab
    obtain ⟨e,he,rfl⟩ := List.mem_map.mp ha
    obtain rfl : b = t.size+1 := by simpa using hb
    have hle := h.bound e he
    omega

theorem tableGet_eq_none {t : EnumTable} {value : String} (h : (tableGet t value).isSome = false) :
    t.get? value = none := by
  unfold tableGet at h
  cases hg : t.get? value with
  | none => rfl
  | some code => simp [hg] at h

theorem Indexed.eq_of_code {t : EnumTable} (h : Indexed t) {a b : String} {i : ℕ}
    (ha : t.get? a = some i) (hb : t.get? b = some i) : a = b := by
  have hma := (OrderedMap.get?_eq_some_iff t a i).mp ha
  have hmb := (OrderedMap.get?_eq_some_iff t b i).mp hb
  have heq := List.inj_on_of_nodup_map h.distinct hma hmb rfl
  exact congrArg Prod.fst heq

theorem reverseEnum_eq_some_iff {t : EnumTable} (h : Indexed t) (q : ℚ) (name : String) :
    reverseEnum t q = some name ↔ name ≠ "" ∧ ∃ i : ℕ, (i : ℚ) = q ∧ t.get? name = some i := by
  unfold reverseEnum
  rw [Option.filter_eq_some_iff, Option.map_eq_some_iff]
  constructor
  · rintro ⟨⟨e,he,rfl⟩,hname⟩
    obtain ⟨hmem,hq⟩ := List.mem_filter.mp (List.mem_of_getLast? he)
    exact ⟨by simpa using hname,e.2,by simpa using hq,OrderedMap.get?_of_mem hmem⟩
  · rintro ⟨hname,i,hi,hget⟩
    have hmem := (OrderedMap.get?_eq_some_iff t name i).mp hget
    have hfilter : (name,i) ∈ t.entries.filter (fun e => (e.2 : ℚ) = q) := by
      simp [hmem, hi]
    refine ⟨?_,by simpa using hname⟩
    cases hlast : (t.entries.filter (fun e => (e.2 : ℚ) = q)).getLast? with
    | none =>
      rw [List.getLast?_eq_none_iff] at hlast
      rw [hlast] at hfilter
      cases hfilter
    | some e =>
      obtain ⟨hme,hqe⟩ := List.mem_filter.mp (List.mem_of_getLast? hlast)
      have hcode : e.2 = i := by
        have hcast : (e.2 : ℚ) = (i : ℚ) := by rw [hi]; simpa using hqe
        exact_mod_cast hcast
      refine ⟨e,rfl,?_⟩
      exact h.eq_of_code (by rw [← hcode]; exact OrderedMap.get?_of_mem hme) hget

def AllIndexed (tables : ProtocolTables) : Prop := ∀ e ∈ tables.entries, Indexed e.2

theorem AllIndexed.of_get? {tables : ProtocolTables} (h : AllIndexed tables) {protocol : String}
    {t : EnumTable} (hget : tables.get? protocol = some t) : Indexed t :=
  h (protocol,t) ((OrderedMap.get?_eq_some_iff tables protocol t).mp hget)

theorem AllIndexed.set {tables : ProtocolTables} (h : AllIndexed tables) (protocol : String)
    {t : EnumTable} (ht : Indexed t) : AllIndexed (tables.set protocol t) := by
  intro e he
  rcases OrderedMap.of_mem_entries_set tables he with hold | rfl
  · exact h e hold
  · exact ht

theorem checkStability_tables (lim : Limits) (l : EnumLearner) (ms : ℤ) :
    (checkStability lim l ms).tables = l.tables := by
  unfold checkStability
  split
  · rfl
  · split <;> rfl

theorem promote_indexed {l : EnumLearner} (h : AllIndexed l.tables) (lim : Limits)
    (protocol value : String) (ms : ℤ) : AllIndexed (promote lim l protocol value ms).tables := by
  have htables : AllIndexed (if l.tables.get? protocol = none
      then l.tables.set protocol OrderedMap.empty else l.tables) := by
    split
    · exact h.set protocol indexed_empty
    · exact h
  unfold promote
  simp only
  generalize (if l.tables.get? protocol = none then l.tables.set protocol OrderedMap.empty
    else l.tables) = tables at htables
  split
  · exact htables
  · rename_i hnew
    rw [checkStability_tables]
    apply htables.set
    apply indexed_set
    · cases hget : tables.get? protocol with
      | none => exact indexed_empty
      | some t => exact htables.of_get? hget
    · exact tableGet_eq_none (by simpa using hnew)

theorem settle_indexed {l : EnumLearner} (h : AllIndexed l.tables) (lim : Limits)
    (protocol value : String) (ms : ℤ) : AllIndexed (settle lim l protocol value ms).tables := by
  unfold settle
  split
  · exact promote_indexed h lim protocol value ms
  · exact h

theorem observe_indexed {l : EnumLearner} (h : AllIndexed l.tables) (lim : Limits)
    (protocol : Option ProtocolName) (value : String) (ms : ℤ) :
    AllIndexed (observe lim l protocol value ms).tables := by
  unfold observe
  cases protocol with
  | none => exact h
  | some p =>
    simp only
    split
    · exact h
    · split
      · exact h
      · apply settle_indexed
        exact h

theorem resume_indexed {l : EnumLearner} (h : AllIndexed l.tables) (lim : Limits) (k : ℕ)
    (ms : ℤ) : AllIndexed (resume lim l k ms).tables := by
  unfold resume
  split
  · apply settle_indexed
    exact h
  · exact h

/-- Codes are unique within a protocol, and nothing is stored under
`agents`. -/
structure Inv (m : Link) : Prop where
  metric : AllIndexed m.metric.tables
  device : AllIndexed m.device.tables
  agents : m.cloud.agents = none

theorem inv_empty : Inv {} where
  metric := by simp [AllIndexed, OrderedMap.empty]
  device := by simp [AllIndexed, OrderedMap.empty]
  agents := rfl

theorem inv_step {m : Link} (h : Inv m) (e : Event) : Inv (step m e) := by
  cases e with
  | metricSeen protocol metric ms =>
    exact ⟨observe_indexed h.metric metricLimits protocol metric ms,h.device,h.agents⟩
  | metricSaved k ms => exact ⟨resume_indexed h.metric metricLimits k ms,h.device,h.agents⟩
  | deviceSeen protocol deviceName ms =>
    exact ⟨h.metric,observe_indexed h.device deviceLimits protocol deviceName ms,h.agents⟩
  | deviceSaved k ms => exact ⟨h.metric,resume_indexed h.device deviceLimits k ms,h.agents⟩
  | sync =>
    refine ⟨h.metric,h.device,?_⟩
    show (none <|> m.cloud.agents) = none
    rw [h.agents]
    rfl

theorem inv_run (events : List Event) : Inv (run step events {}) := by
  have hstep : ∀ (m : Link) (e : Event), True → Inv m → Inv (step m e) :=
    fun _ e _ h => inv_step h e
  exact run_invariant hstep events _ (meets_any step events _) inv_empty

theorem decode_metric (tables : EnumTables) (q : ℚ) :
    decodeEnumValue tables "metric" (.prim (.num q)) =
      match reverseAny tables.metrics q with
      | some text => .prim (.str text)
      | none => .prim (.num q) := rfl

theorem decode_device (tables : EnumTables) (q : ℚ) :
    decodeEnumValue tables "deviceName" (.prim (.num q)) =
      match reverseAny tables.devices q with
      | some text => .prim (.str text)
      | none => .prim (.num q) := by
  have hmetric : ("deviceName" = "metric" || JsText.endsWith "deviceName" ".metric") = false := by
    decide
  unfold decodeEnumValue reverseCode
  rw [hmetric]
  rfl

def HasCode (t : EnumTable) (name : String) (q : ℚ) : Prop :=
  ∃ i : ℕ, (i : ℚ) = q ∧ t.get? name = some i

/-- Of the tables that have a value for the code, in the order in which the
protocols got theirs, the first has this one. Empty text does not count. -/
def FirstWith (tables : ProtocolTables) (q : ℚ) (name : String) : Prop :=
  name ≠ "" ∧ ∃ before e after, tables.entries = before++e::after ∧ HasCode e.2 name q ∧
    ∀ e' ∈ before, ∀ other, HasCode e'.2 other q → other = ""

theorem reverseEnum_eq_none_iff {t : EnumTable} (h : Indexed t) (q : ℚ) :
    reverseEnum t q = none ↔ ∀ name, HasCode t name q → name = "" := by
  rw [Option.eq_none_iff_forall_ne_some]
  constructor
  · intro hnone name hcode
    by_contra hne
    exact hnone name ((reverseEnum_eq_some_iff h q name).mpr ⟨hne,hcode⟩)
  · intro hall name hsome
    obtain ⟨hne,hcode⟩ := (reverseEnum_eq_some_iff h q name).mp hsome
    exact hne (hall name hcode)

theorem reverseAny_eq_some_iff {tables : ProtocolTables} (h : AllIndexed tables) (q : ℚ)
    (name : String) : reverseAny tables q = some name ↔ FirstWith tables q name := by
  unfold reverseAny FirstWith
  rw [List.findSome?_eq_some_iff]
  constructor
  · rintro ⟨before,e,after,hsplit,he,hbefore⟩
    have hmem : ∀ e' ∈ before++e::after, Indexed e'.2 := by
      rw [← hsplit]
      exact h
    obtain ⟨hne,hcode⟩ := (reverseEnum_eq_some_iff (hmem e (by simp)) q name).mp he
    refine ⟨hne,before,e,after,hsplit,hcode,fun e' he' => ?_⟩
    exact (reverseEnum_eq_none_iff (hmem e' (by simp [he'])) q).mp (hbefore e' he')
  · rintro ⟨hne,before,e,after,hsplit,hcode,hbefore⟩
    have hmem : ∀ e' ∈ before++e::after, Indexed e'.2 := by
      rw [← hsplit]
      exact h
    refine ⟨before,e,after,hsplit,?_,fun e' he' => ?_⟩
    · exact (reverseEnum_eq_some_iff (hmem e (by simp)) q name).mpr ⟨hne,hcode⟩
    · exact (reverseEnum_eq_none_iff (hmem e' (by simp [he'])) q).mpr (hbefore e' he')

theorem reverseAny_eq_none_iff {tables : ProtocolTables} (h : AllIndexed tables) (q : ℚ) :
    reverseAny tables q = none ↔
      ∀ e ∈ tables.entries, ∀ name, HasCode e.2 name q → name = "" := by
  unfold reverseAny
  rw [List.findSome?_eq_none_iff]
  exact forall₂_congr (fun e he => reverseEnum_eq_none_iff (h e he) q)

def MetricReturns (m : Link) (protocol : Option ProtocolName) (metric : String) : Prop :=
  decodeEnumValue (getEnumMappings m.cloud) "metric"
    (encodeMetadataValue m.metric.tables protocol metric) = .prim (.str metric)

def DeviceReturns (m : Link) (protocol : Option ProtocolName) (deviceName : String) : Prop :=
  decodeEnumValue (getEnumMappings m.cloud) "deviceName"
    (encodeMetadataValue m.device.tables protocol deviceName) = .prim (.str deviceName)

/-- A number of the payload itself comes back as it is. -/
def NumberReturns (m : Link) (field : String) (q : ℚ) : Prop :=
  decodeEnumValue (getEnumMappings m.cloud) field (.prim (.num q)) = .prim (.num q)

/-- With a table of the protocol, a promoted metric is the first that has its
code, and a metric without one is no inherited name. -/
def MetricKept (tables : ProtocolTables) (protocol : Option ProtocolName) (metric : String) :
    Prop :=
  ∀ p t, protocol = some p → p.text ≠ "" → tables.get? p.text = some t →
    (∀ i, t.get? metric = some i → FirstWith tables i metric) ∧
      (t.get? metric = none → metric ∉ inheritedNames)

/-- With a table of the protocol, the device is not promoted and its name not
inherited. -/
def DeviceKept (tables : ProtocolTables) (protocol : Option ProtocolName) (deviceName : String) :
    Prop :=
  ∀ p t, protocol = some p → p.text ≠ "" → tables.get? p.text = some t →
    t.get? deviceName = none ∧ deviceName ∉ inheritedNames

theorem encode_cases (tables : ProtocolTables) (protocol : Option ProtocolName) (value : String) :
    (∃ p t, protocol = some p ∧ p.text ≠ "" ∧ tables.get? p.text = some t ∧
      encodeMetadataValue tables protocol value = (tableGet t value).getD (.prim (.str value))) ∨
    ((∀ p t, protocol = some p → p.text ≠ "" → tables.get? p.text ≠ some t) ∧
      encodeMetadataValue tables protocol value = .prim (.str value)) := by
  unfold encodeMetadataValue protocolTable
  cases protocol with
  | none => exact Or.inr ⟨(fun _ _ hp => nomatch hp),rfl⟩
  | some p =>
    by_cases hempty : p.text = ""
    · refine Or.inr ⟨?_,by simp [hempty]⟩
      intro p' t hp hne
      obtain rfl := Option.some.inj hp
      exact absurd hempty hne
    · cases hget : tables.get? p.text with
      | none =>
        refine Or.inr ⟨?_,by simp [hempty, hget]⟩
        intro p' t hp hne ht
        obtain rfl := Option.some.inj hp
        rw [hget] at ht
        cases ht
      | some t => exact Or.inl ⟨p,t,rfl,hempty,hget,by simp [hempty, hget]⟩

theorem decode_missing {t : EnumTable} {value : String} (h : t.get? value = none)
    (tables : EnumTables) (field : String) :
    decodeEnumValue tables field ((tableGet t value).getD (.prim (.str value))) =
        .prim (.str value) ↔ value ∉ inheritedNames := by
  unfold tableGet
  rw [h]
  by_cases hproto : value = "__proto__"
  · have hmem : value ∈ inheritedNames := by rw [hproto]; decide
    simp [hproto, decodeEnumValue, inheritedNames]
  · by_cases hmem : value ∈ inheritedNames
    · simp [hproto, hmem, decodeEnumValue]
    · simp [hproto, hmem, decodeEnumValue]

theorem tableGet_of_code {t : EnumTable} {value : String} {i : ℕ} (h : t.get? value = some i) :
    tableGet t value = some (.prim (.num i)) := by
  unfold tableGet
  rw [h]

theorem forall_table_iff {tables : ProtocolTables} {p : ProtocolName} {t : EnumTable}
    (hne : p.text ≠ "") (hget : tables.get? p.text = some t) (P : EnumTable → Prop) :
    (∀ p' t', some p = some p' → p'.text ≠ "" → tables.get? p'.text = some t' → P t') ↔ P t := by
  constructor
  · intro h
    exact h p t rfl hne hget
  · intro h p' t' hp _ ht
    obtain rfl := Option.some.inj hp
    rw [hget] at ht
    rw [← Option.some.inj ht]
    exact h

section Synced
variable {m : Link} (hm : Inv m)

def synced (m : Link) : Link := step m .sync

include hm

theorem synced_devices :
    (getEnumMappings (synced m).cloud).devices = OrderedMap.empty := by
  show ((none : Option ProtocolTables) <|> m.cloud.agents).getD OrderedMap.empty = _
  rw [hm.agents]
  rfl

theorem metric_decoded_iff (t : EnumTable) (metric : String) :
    decodeEnumValue (getEnumMappings (synced m).cloud) "metric"
        ((tableGet t metric).getD (.prim (.str metric))) = .prim (.str metric) ↔
      (∀ i, t.get? metric = some i → FirstWith m.metric.tables i metric) ∧
        (t.get? metric = none → metric ∉ inheritedNames) := by
  have htables : (getEnumMappings (synced m).cloud).metrics = m.metric.tables := rfl
  cases hcode : t.get? metric with
  | some i =>
    rw [tableGet_of_code hcode, Option.getD_some, decode_metric, htables]
    have hfirst : FirstWith m.metric.tables i metric ↔
        ∀ j, some i = some j → FirstWith m.metric.tables j metric := by
      simp
    rw [← hfirst, ← reverseAny_eq_some_iff hm.metric]
    cases reverseAny m.metric.tables i with
    | none => simp
    | some text => simp
  | none =>
    rw [decode_missing hcode]
    simp

theorem device_decoded_iff (t : EnumTable) (deviceName : String) :
    decodeEnumValue (getEnumMappings (synced m).cloud) "deviceName"
        ((tableGet t deviceName).getD (.prim (.str deviceName))) = .prim (.str deviceName) ↔
      t.get? deviceName = none ∧ deviceName ∉ inheritedNames := by
  cases hcode : t.get? deviceName with
  | some i =>
    rw [tableGet_of_code hcode, Option.getD_some, decode_device, synced_devices hm]
    simp [reverseAny, OrderedMap.empty]
  | none =>
    rw [decode_missing hcode]
    simp

theorem metric_returns_iff (protocol : Option ProtocolName) (metric : String) :
    MetricReturns (synced m) protocol metric ↔
      MetricKept m.metric.tables protocol metric := by
  show decodeEnumValue _ "metric" (encodeMetadataValue m.metric.tables protocol metric) = _ ↔ _
  rcases encode_cases m.metric.tables protocol metric with
    ⟨p,t,rfl,hne,hget,hencode⟩ | ⟨hnone,hencode⟩
  · rw [hencode, metric_decoded_iff hm]
    exact (forall_table_iff hne hget (fun t =>
      (∀ i, t.get? metric = some i → FirstWith m.metric.tables i metric) ∧
        (t.get? metric = none → metric ∉ inheritedNames))).symm
  · rw [hencode]
    exact ⟨fun _ p t hp hne ht => absurd ht (hnone p t hp hne),fun _ => rfl⟩

theorem device_returns_iff (protocol : Option ProtocolName) (deviceName : String) :
    DeviceReturns (synced m) protocol deviceName ↔
      DeviceKept m.device.tables protocol deviceName := by
  show decodeEnumValue _ "deviceName"
    (encodeMetadataValue m.device.tables protocol deviceName) = _ ↔ _
  rcases encode_cases m.device.tables protocol deviceName with
    ⟨p,t,rfl,hne,hget,hencode⟩ | ⟨hnone,hencode⟩
  · rw [hencode, device_decoded_iff hm]
    exact (forall_table_iff hne hget (fun t =>
      t.get? deviceName = none ∧ deviceName ∉ inheritedNames)).symm
  · rw [hencode]
    exact ⟨fun _ p t hp hne ht => absurd ht (hnone p t hp hne),fun _ => rfl⟩

theorem metric_number_iff (q : ℚ) :
    NumberReturns (synced m) "metric" q ↔
      ∀ e ∈ m.metric.tables.entries, ∀ name, HasCode e.2 name q → name = "" := by
  have htables : (getEnumMappings (synced m).cloud).metrics = m.metric.tables := rfl
  unfold NumberReturns
  rw [decode_metric, htables, ← reverseAny_eq_none_iff hm.metric]
  cases reverseAny m.metric.tables q with
  | none => simp
  | some text => simp

theorem device_number (q : ℚ) : NumberReturns (synced m) "deviceName" q := by
  unfold NumberReturns
  rw [decode_device, synced_devices hm]
  rfl

end Synced

theorem enum_round_trip_iff (events : List Event) :
    (∀ protocol metric, MetricReturns (synced (run step events {})) protocol metric ↔
      MetricKept (run step events {}).metric.tables protocol metric) ∧
    (∀ protocol deviceName, DeviceReturns (synced (run step events {})) protocol deviceName ↔
      DeviceKept (run step events {}).device.tables protocol deviceName) ∧
    (∀ q, NumberReturns (synced (run step events {})) "metric" q ↔
      ∀ e ∈ (run step events {}).metric.tables.entries, ∀ name, HasCode e.2 name q → name = "") ∧
    (∀ q, NumberReturns (synced (run step events {})) "deviceName" q) :=
  ⟨metric_returns_iff (inv_run events),device_returns_iff (inv_run events),
    metric_number_iff (inv_run events),device_number (inv_run events)⟩

def modbus : ProtocolName := ⟨"modbus",by decide⟩
def opcua : ProtocolName := ⟨"opcua",by decide⟩

def metricSeen (protocol : ProtocolName) (metric : String) : List Event :=
  (List.replicate 5 (List.replicate 10 (.metricSeen (some protocol) metric 0)++
    [.metricSaved 0 0])).flatten

def twoProtocols : List Event :=
  metricSeen modbus "engine_rpm"++metricSeen opcua "pressure"++
    List.replicate 10 (.deviceSeen (some modbus) "slave_3" 0)++[.deviceSaved 0 0]

theorem pressure_becomes_engine_rpm :
    ¬MetricReturns (synced (run step twoProtocols {})) (some opcua) "pressure" ∧
      ¬DeviceReturns (synced (run step twoProtocols {})) (some modbus) "slave_3" ∧
      ¬NumberReturns (synced (run step twoProtocols {})) "metric" 1 := by
  have hinv := inv_run twoProtocols
  have hcode : ((run step twoProtocols {}).metric.tables.get? "opcua").bind
      (fun t => t.get? "pressure") = some 1 := by decide +kernel
  have hrpm : ∀ q : ℚ, q = 1 →
      reverseAny (run step twoProtocols {}).metric.tables q = some "engine_rpm" := by
    rintro q rfl
    decide +kernel
  have hdevice : ((run step twoProtocols {}).device.tables.get? "modbus").bind
      (fun t => t.get? "slave_3") = some 1 := by decide +kernel
  refine ⟨?_,?_,?_⟩
  · rw [metric_returns_iff hinv]
    intro h
    obtain ⟨t,ht,hget⟩ := Option.bind_eq_some_iff.mp hcode
    have hfirst := (h opcua t rfl (by decide) ht).1 1 hget
    rw [← reverseAny_eq_some_iff hinv.metric, hrpm ((1 : ℕ) : ℚ) rfl] at hfirst
    exact absurd hfirst (by decide)
  · rw [device_returns_iff hinv]
    intro h
    obtain ⟨t,ht,hget⟩ := Option.bind_eq_some_iff.mp hdevice
    rw [(h modbus t rfl (by decide) ht).1] at hget
    cases hget
  · rw [metric_number_iff hinv, ← reverseAny_eq_none_iff hinv.metric, hrpm 1 rfl]
    exact fun h => nomatch h

end Iotistica.DictionaryEnums
