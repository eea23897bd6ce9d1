import Iotistica.CopyReadings

/-!
# Upserts of endpoints

An endpoint is looked for by its fingerprint and then by its name, and is
updated by a fingerprint in either case: that of the device, else that of the
row, else the empty text. A row that was found by its name is the one that is
written only if it has this fingerprint already. The text of a JSON column is
held as its value.
-/

set_option autoImplicit false

namespace Iotistica.EndpointUpserts
open Iotistica.JsonText
open Iotistica.CopyReadings (DateValue toISOString)

structure EndpointRow where
  id : ℕ
  uuid : Option String
  name : String
  protocol : String
  group_name : Option String
  enabled : Bool
  poll_interval : ℤ
  connection : Value
  data_points : Option Value
  metadata : Option Value
  created_at : String
  updated_at : String
  lastSeenAt : Option String
  fingerprint : Option String

/-- Names and uuids are unique by the schema; so are fingerprints here. -/
structure EndpointTable where
  rows : List EndpointRow
  next : ℕ
  below : ∀ r ∈ rows, r.id < next
  ids : (rows.map EndpointRow.id).Nodup
  names : ∀ a ∈ rows, ∀ b ∈ rows, a.name = b.name → a.id = b.id
  uuids : ∀ a ∈ rows, ∀ b ∈ rows, ∀ u, a.uuid = some u → b.uuid = some u → a.id = b.id
  fingerprints : ∀ a ∈ rows, ∀ b ∈ rows, ∀ f,
    a.fingerprint = some f → b.fingerprint = some f → a.id = b.id

/-- What an upsert takes. The row number and the two stamps, which the table
sets itself, are no fields of it. -/
structure Device where
  uuid : Option String
  fingerprint : Option String
  name : String
  protocol : String
  groupName : Option String
  enabled : Bool
  poll_interval : ℤ
  connection : Members
  data_points : Option (List Value)
  metadata : Option Members
  /-- None inside is the invalid date. -/
  lastSeenAt : Option (Option DateValue)

/-- An endpoint as it is read, with dates of a type `D`. -/
structure Endpoint (D : Type) where
  id : ℕ
  uuid : Option String
  fingerprint : Option String
  name : String
  protocol : String
  groupName : Option String
  enabled : Bool
  poll_interval : ℤ
  connection : Value
  data_points : Option Value
  metadata : Option Value
  lastSeenAt : Option D
  created_at : Option D
  updated_at : Option D

def truthyText (s : Option String) : Option String := s.filter (fun t => t ≠ "")

def parseRow {D : Type} (date : String → D) (row : EndpointRow) : Endpoint D where
  id := row.id
  uuid := row.uuid
  fingerprint := row.fingerprint
  name := row.name
  protocol := row.protocol
  groupName := truthyText row.group_name
  enabled := row.enabled
  poll_interval := row.poll_interval
  connection := row.connection
  data_points := row.data_points
  metadata := row.metadata
  lastSeenAt := (truthyText row.lastSeenAt).map date
  created_at := (truthyText (some row.created_at)).map date
  updated_at := (truthyText (some row.updated_at)).map date

structure Columns where
  uuid : Option (Option String)
  fingerprint : Option (Option String)
  name : String
  protocol : String
  group_name : Option (Option String)
  enabled : Bool
  poll_interval : ℤ
  connection : Value
  data_points : Option (Option Value)
  metadata : Option (Option Value)
  lastSeenAt : Option String

def given {α : Type} (includeDefaults : Bool) (field : Option α) : Option (Option α) :=
  if field.isSome || includeDefaults then some field else none

/-- The text of an invalid date throws. -/
def lastSeenText : Option (Option DateValue) → Option (Option String)
  | none => some none
  | some none => none
  | some (some d) => some (some (String.ofList (toISOString d)))

def serializeEndpoint (d : Device) (includeDefaults : Bool) : Option Columns :=
  (lastSeenText d.lastSeenAt).map (fun lastSeenAt =>
    { uuid := given includeDefaults d.uuid
      fingerprint := given includeDefaults d.fingerprint
      name := d.name
      protocol := d.protocol
      group_name := given includeDefaults d.groupName
      enabled := d.enabled
      poll_interval := d.poll_interval
      connection := .obj d.connection
      data_points := d.data_points.map (fun items => some (.arr items))
      metadata := d.metadata.map (fun members => some (.obj members))
      lastSeenAt := lastSeenAt })

def getByName (rows : List EndpointRow) (name : String) : Option EndpointRow :=
  rows.find? (fun r => r.name = name)

def getByFingerprint (rows : List EndpointRow) (fingerprint : String) : Option EndpointRow :=
  rows.find? (fun r => r.fingerprint = some fingerprint)

def clash (a b : EndpointRow) : Bool :=
  decide (a.id ≠ b.id) && (decide (a.name = b.name) || (a.uuid.isSome && decide (a.uuid = b.uuid)))

def checked (rows : List EndpointRow) : Option (List EndpointRow) :=
  if rows.any (fun a => rows.any (clash a)) then none else some rows

def Columns.update (c : Columns) (now : String) (row : EndpointRow) : EndpointRow :=
  { row with
    uuid := c.uuid.getD row.uuid
    fingerprint := c.fingerprint.getD row.fingerprint
    name := c.name
    protocol := c.protocol
    group_name := c.group_name.getD row.group_name
    enabled := c.enabled
    poll_interval := c.poll_interval
    connection := c.connection
    data_points := c.data_points.getD row.data_points
    metadata := c.metadata.getD row.metadata
    lastSeenAt := c.lastSeenAt.or row.lastSeenAt
    updated_at := now }

def Columns.insert (c : Columns) (now : String) (id : ℕ) : EndpointRow where
  id := id
  uuid := c.uuid.getD none
  fingerprint := c.fingerprint.getD none
  name := c.name
  protocol := c.protocol
  group_name := c.group_name.getD none
  enabled := c.enabled
  poll_interval := c.poll_interval
  connection := c.connection
  data_points := c.data_points.getD none
  metadata := c.metadata.getD none
  lastSeenAt := c.lastSeenAt
  created_at := now
  updated_at := now

section
variable {D : Type} (date : String → D) (now randomUUID : String)

/-- The rows that a call leaves and the endpoint that it returns; none where
it throws. -/
abbrev Outcome (D : Type) := Option (List EndpointRow × Option (Endpoint D))

def updateByFingerprint (t : EndpointTable) (fingerprint : String) (updates : Device) : Outcome D :=
  (serializeEndpoint updates false).bind (fun updateData =>
    (checked (t.rows.map (fun r =>
      if r.fingerprint = some fingerprint then updateData.update now r else r))).map (fun rows =>
        (rows,(getByFingerprint rows fingerprint).map (parseRow date))))

def create (t : EndpointTable) (device : Device) : Outcome D :=
  (serializeEndpoint { device with uuid := some ((truthyText device.uuid).getD randomUUID) } true).bind
    (fun serialized =>
      (checked (t.rows++[serialized.insert now t.next])).map (fun rows =>
        (rows,(rows.find? (fun r => r.id = t.next)).map (parseRow date))))

def existing (t : EndpointTable) (device : Device) : Option EndpointRow :=
  ((truthyText device.fingerprint).bind (getByFingerprint t.rows)).or (getByName t.rows device.name)

def updateKey (device : Device) (row : EndpointRow) : String :=
  ((truthyText device.fingerprint).or (truthyText row.fingerprint)).getD ""

def upsert (t : EndpointTable) (device : Device) : Outcome D :=
  match existing t device with
  | some row => updateByFingerprint date now t (updateKey device row) device
  | none => create date now randomUUID t device

end

/-- The row is that of the device: by its fingerprint if some row had it, else
by its name. -/
def Matches (t : EndpointTable) (device : Device) (r : EndpointRow) : Prop :=
  if ((truthyText device.fingerprint).bind (getByFingerprint t.rows)).isSome then
    r.fingerprint = device.fingerprint
  else r.name = device.name

instance (t : EndpointTable) (device : Device) (r : EndpointRow) : Decidable (Matches t device r) := by
  unfold Matches
  infer_instance

structure Holds (device : Device) (previous : Option String) (r : EndpointRow) : Prop where
  kept : ∀ u, previous = some u → r.uuid = some u
  uuid : previous = none → ∀ u, device.uuid = some u → r.uuid = some u
  fingerprint : ∀ f, device.fingerprint = some f → r.fingerprint = some f
  name : r.name = device.name
  protocol : r.protocol = device.protocol
  groupName : ∀ g, device.groupName = some g → r.group_name = some g
  enabled : r.enabled = device.enabled
  poll_interval : r.poll_interval = device.poll_interval
  connection : r.connection = .obj device.connection
  data_points : ∀ items, device.data_points = some items → r.data_points = some (.arr items)
  metadata : ∀ members, device.metadata = some members → r.metadata = some (.obj members)
  lastSeenAt : ∀ d, device.lastSeenAt = some (some d) →
    r.lastSeenAt = some (String.ofList (toISOString d))

def replaced (rows : List EndpointRow) (r r' : EndpointRow) : List EndpointRow :=
  rows.map (fun x => if x.id = r.id then r' else x)

structure Upserted {D : Type} (date : String → D) (t : EndpointTable) (device : Device)
    (out : List EndpointRow × Option (Endpoint D)) (r' : EndpointRow) : Prop where
  one : out.1.filter (fun r => Matches t device r) = [r']
  found : ∀ r, existing t device = some r → out.1 = replaced t.rows r r' ∧ r'.id = r.id ∧
    Holds device r.uuid r'
  made : existing t device = none → out.1 = t.rows++[r'] ∧ Holds device none r'
  returned : out.2 = some (parseRow date r')

/-- The row that is found can be written: it has the fingerprint that it is
updated by, keeps its uuid, and no other row has its new name or uuid. -/
structure Writable (t : EndpointTable) (device : Device) (r : EndpointRow) : Prop where
  key : r.fingerprint = some (updateKey device r)
  own : ∀ f, device.fingerprint = some f → f = updateKey device r
  kept : ∀ u v, r.uuid = some u → device.uuid = some v → u = v
  uuid : ∀ x ∈ t.rows, x.id ≠ r.id → ∀ u, device.uuid = some u → x.uuid ≠ some u
  name : ∀ x ∈ t.rows, x.id ≠ r.id → x.name ≠ device.name

structure Upsertable (t : EndpointTable) (device : Device) : Prop where
  lastSeenAt : device.lastSeenAt ≠ some none
  found : ∀ r, existing t device = some r → Writable t device r
  made : existing t device = none → ∀ u, device.uuid = some u →
    u ≠ "" ∧ ∀ x ∈ t.rows, x.uuid ≠ some u

theorem truthyText_eq_some {s : Option String} {t : String} :
    truthyText s = some t ↔ s = some t ∧ t ≠ "" := by
  unfold truthyText
  rw [Option.filter_eq_some_iff]
  simp

theorem clash_eq_false {a b : EndpointRow} (hid : a.id ≠ b.id) : clash a b = false ↔
    a.name ≠ b.name ∧ ∀ u, a.uuid = some u → b.uuid ≠ some u := by
  unfold clash
  cases ha : a.uuid with
  | none => simp [hid]
  | some u => simp [hid, @eq_comm _ b.uuid]

theorem clash_comm (a b : EndpointRow) : clash a b = clash b a := by
  by_cases hid : a.id = b.id
  · simp [clash, hid]
  · have h : clash a b = false ↔ clash b a = false := by
      rw [clash_eq_false hid, clash_eq_false (Ne.symm hid)]
      constructor
      · exact fun h => ⟨Ne.symm h.1,fun u hb ha => h.2 u ha hb⟩
      · exact fun h => ⟨Ne.symm h.1,fun u ha hb => h.2 u hb ha⟩
    cases hab : clash a b with
    | false => exact (h.mp hab).symm
    | true =>
      cases hba : clash b a with
      | false => exact absurd (h.mpr hba) (by rw [hab]; decide)
      | true => rfl

theorem checked_eq_some {rows rows' : List EndpointRow} : checked rows = some rows' ↔
    rows' = rows ∧ ∀ a ∈ rows, ∀ b ∈ rows, clash a b = false := by
  unfold checked
  split
  · rename_i h
    obtain ⟨a,ha,h⟩ := List.any_eq_true.mp h
    obtain ⟨b,hb,h⟩ := List.any_eq_true.mp h
    constructor
    · intro hn
      cases hn
    · rintro ⟨-,hall⟩
      rw [hall a ha b hb] at h
      cases h
  · rename_i h
    rw [Option.some.injEq, eq_comm, and_iff_left]
    intro a ha b hb
    by_contra hc
    rw [Bool.not_eq_false] at hc
    exact h (List.any_eq_true.mpr ⟨a,ha,List.any_eq_true.mpr ⟨b,hb,hc⟩⟩)

variable {t : EndpointTable}

theorem EndpointTable.eq_of_id {a b : EndpointRow} (ha : a ∈ t.rows) (hb : b ∈ t.rows)
    (h : a.id = b.id) : a = b :=
  List.inj_on_of_nodup_map t.ids ha hb h

theorem EndpointTable.clash_false {a b : EndpointRow} (ha : a ∈ t.rows) (hb : b ∈ t.rows) :
    clash a b = false := by
  by_cases hid : a.id = b.id
  · simp [clash, hid]
  · rw [clash_eq_false hid]
    exact ⟨fun hn => hid (t.names a ha b hb hn),fun u hu hu' => hid (t.uuids a ha b hb u hu hu')⟩

theorem mem_replaced {rows : List EndpointRow} {r r' x : EndpointRow} (hr : r ∈ rows) :
    x ∈ replaced rows r r' ↔ x = r' ∨ x ∈ rows ∧ x.id ≠ r.id := by
  unfold replaced
  rw [List.mem_map]
  constructor
  · rintro ⟨y,hy,rfl⟩
    split
    · exact Or.inl rfl
    · rename_i hid
      exact Or.inr ⟨hy,hid⟩
  · rintro (rfl | ⟨hx,hid⟩)
    · exact ⟨r,hr,if_pos rfl⟩
    · exact ⟨x,hx,if_neg hid⟩

theorem replaced_inj {rows : List EndpointRow} {r a b : EndpointRow} (hr : r ∈ rows)
    (h : replaced rows r a = replaced rows r b) : a = b := by
  have := List.map_inj_left.mp h r hr
  rwa [if_pos rfl, if_pos rfl] at this

theorem filter_replaced {r r' : EndpointRow} {p : EndpointRow → Bool} (hr : r ∈ t.rows)
    (hp : p r' = true) (hother : ∀ x ∈ t.rows, x.id ≠ r.id → p x = false) :
    (replaced t.rows r r').filter p = [r'] := by
  have hids := t.ids
  revert hr hother hids
  generalize t.rows = rows
  intro hr hother hids
  induction rows with
  | nil => cases hr
  | cons x rows ih =>
    rw [List.map_cons, List.nodup_cons] at hids
    have hcons : replaced (x::rows) r r' = (if x.id = r.id then r' else x)::replaced rows r r' := rfl
    rw [hcons]
    by_cases hx : x.id = r.id
    · have hrest : (replaced rows r r').filter p = [] := by
        rw [List.filter_eq_nil_iff]
        intro y hy
        obtain ⟨z,hz,rfl⟩ := List.mem_map.mp hy
        have hne : z.id ≠ r.id := fun he => hids.1 (by rw [hx, ← he]; exact List.mem_map_of_mem hz)
        rw [if_neg hne, hother z (List.mem_cons_of_mem _ hz) hne]
        decide
      rw [if_pos hx, List.filter_cons, if_pos hp, hrest]
    · have hmem : r ∈ rows := by
        rcases List.mem_cons.mp hr with rfl | h
        · exact absurd rfl hx
        · exact h
      rw [if_neg hx, List.filter_cons, if_neg (by rw [hother x List.mem_cons_self hx]; decide)]
      exact ih hmem (fun z hz => hother z (List.mem_cons_of_mem _ hz)) hids.2

theorem checked_replaced {r r' : EndpointRow} (hr : r ∈ t.rows) :
    checked (replaced t.rows r r') = some (replaced t.rows r r') ↔
      ∀ x ∈ t.rows, x.id ≠ r.id → clash x r' = false := by
  rw [checked_eq_some, and_iff_right rfl]
  constructor
  · intro h x hx hne
    exact h x ((mem_replaced hr).mpr (Or.inr ⟨hx,hne⟩)) r' ((mem_replaced hr).mpr (Or.inl rfl))
  · intro h a ha b hb
    rcases (mem_replaced hr).mp ha with ha' | ⟨ha',hna⟩
    · rcases (mem_replaced hr).mp hb with hb' | ⟨hb',hnb⟩
      · simp [ha', hb', clash]
      · rw [clash_comm, ha']
        exact h b hb' hnb
    · rcases (mem_replaced hr).mp hb with hb' | ⟨hb',hnb⟩
      · rw [hb']
        exact h a ha' hna
      · exact t.clash_false ha' hb'

theorem map_fingerprint {r : EndpointRow} (hr : r ∈ t.rows) {f : String}
    (hf : r.fingerprint = some f) (g : EndpointRow → EndpointRow) :
    t.rows.map (fun x => if x.fingerprint = some f then g x else x) = replaced t.rows r (g r) := by
  apply List.map_congr_left
  intro x hx
  by_cases hid : x.id = r.id
  · rw [t.eq_of_id hx hr hid, if_pos hf, if_pos rfl]
  · rw [if_neg hid, if_neg]
    intro hxf
    exact hid (t.fingerprints x hx r hr f hxf hf)

theorem existing_eq_some {device : Device} {r : EndpointRow} (h : existing t device = some r) :
    r ∈ t.rows ∧ ((∃ f, truthyText device.fingerprint = some f ∧ r.fingerprint = some f) ∨
      (truthyText device.fingerprint).bind (getByFingerprint t.rows) = none ∧
        r.name = device.name) := by
  unfold existing at h
  rcases Option.or_eq_some_iff.mp h with h | ⟨hnone,h⟩
  · obtain ⟨f,hf,hfind⟩ := Option.bind_eq_some_iff.mp h
    refine ⟨List.mem_of_find?_eq_some hfind,Or.inl ⟨f,hf,?_⟩⟩
    simpa using List.find?_some hfind
  · refine ⟨List.mem_of_find?_eq_some h,Or.inr ⟨hnone,?_⟩⟩
    simpa using List.find?_some h

theorem existing_eq_none {device : Device} (h : existing t device = none) :
    (truthyText device.fingerprint).bind (getByFingerprint t.rows) = none ∧
      ∀ x ∈ t.rows, x.name ≠ device.name := by
  obtain ⟨hf,hn⟩ := Option.or_eq_none_iff.mp h
  refine ⟨hf,?_⟩
  simpa using List.find?_eq_none.mp hn

theorem updateKey_truthy {device : Device} {f : String} (h : truthyText device.fingerprint = some f)
    (r : EndpointRow) : updateKey device r = f := by
  unfold updateKey
  rw [h]
  rfl

theorem given_false {α : Type} (field : Option α) (old : Option α) :
    (given false field).getD old = field.or old := by
  cases field <;> rfl

theorem holds_update {device : Device} {c : Columns} (hc : serializeEndpoint device false = some c)
    (now : String) (r : EndpointRow)
    (hkept : ∀ u v, r.uuid = some u → device.uuid = some v → u = v) :
    Holds device r.uuid (c.update now r) := by
  obtain ⟨last,hlast,rfl⟩ := Option.map_eq_some_iff.mp hc
  have huuid : (given false device.uuid).getD r.uuid = device.uuid.or r.uuid := given_false _ _
  refine ⟨?_,?_,?_,rfl,rfl,?_,rfl,rfl,rfl,?_,?_,?_⟩
  · intro u hu
    show (given false device.uuid).getD r.uuid = some u
    rw [huuid]
    cases hd : device.uuid with
    | none => exact hu
    | some v => rw [hkept u v hu hd]; rfl
  · intro _ u hu
    show (given false device.uuid).getD r.uuid = some u
    rw [huuid, hu]
    rfl
  · intro f hf
    show (given false device.fingerprint).getD r.fingerprint = some f
    rw [given_false, hf]
    rfl
  · intro g hg
    show (given false device.groupName).getD r.group_name = some g
    rw [given_false, hg]
    rfl
  · intro items hi
    simp [Columns.update, hi]
  · intro members hm
    simp [Columns.update, hm]
  · intro d hd
    rw [hd] at hlast
    cases hlast
    rfl

theorem holds_insert {device : Device} {c : Columns} {uuid : String}
    (hc : serializeEndpoint { device with uuid := some uuid } true = some c) (now : String) (id : ℕ)
    (hu : ∀ u, device.uuid = some u → u = uuid) : Holds device none (c.insert now id) := by
  obtain ⟨last,hlast,rfl⟩ := Option.map_eq_some_iff.mp hc
  refine ⟨?_,?_,?_,rfl,rfl,?_,rfl,rfl,rfl,?_,?_,?_⟩
  · intro u h
    cases h
  · intro _ u h
    rw [hu u h]
    rfl
  · intro f hf
    simp [Columns.insert, given, hf]
  · intro g hg
    simp [Columns.insert, given, hg]
  · intro items hi
    simp [Columns.insert, hi]
  · intro members hm
    simp [Columns.insert, hm]
  · intro d hd
    rw [hd] at hlast
    cases hlast
    rfl

theorem serializeEndpoint_isSome {device : Device} {includeDefaults : Bool} :
    (∃ c, serializeEndpoint device includeDefaults = some c) ↔ device.lastSeenAt ≠ some none := by
  unfold serializeEndpoint
  cases device.lastSeenAt with
  | none => simp [lastSeenText]
  | some d => cases d <;> simp [lastSeenText]

theorem update_uuid {device : Device} {c : Columns} (hc : serializeEndpoint device false = some c)
    (now : String) (r : EndpointRow) : (c.update now r).uuid = device.uuid.or r.uuid ∧
      (c.update now r).name = device.name ∧
      (c.update now r).fingerprint = device.fingerprint.or r.fingerprint := by
  obtain ⟨last,-,rfl⟩ := Option.map_eq_some_iff.mp hc
  exact ⟨given_false _ _,rfl,given_false _ _⟩

theorem update_clash {device : Device} {c : Columns} (hc : serializeEndpoint device false = some c)
    (now : String) {r : EndpointRow} (hr : r ∈ t.rows) :
    (∀ x ∈ t.rows, x.id ≠ r.id → clash x (c.update now r) = false) ↔
      (∀ x ∈ t.rows, x.id ≠ r.id → ∀ u, device.uuid = some u → x.uuid ≠ some u) ∧
        ∀ x ∈ t.rows, x.id ≠ r.id → x.name ≠ device.name := by
  obtain ⟨huuid,hname,-⟩ := update_uuid hc now r
  have hone : ∀ x ∈ t.rows, x.id ≠ r.id → (clash x (c.update now r) = false ↔
      x.name ≠ device.name ∧ ∀ u, device.uuid = some u → x.uuid ≠ some u) := by
    intro x hx hid
    have hne : x.id ≠ (c.update now r).id := hid
    rw [clash_eq_false hne, hname, huuid]
    apply and_congr_right
    intro _
    cases hd : device.uuid with
    | none =>
      simp only [Option.none_or, reduceCtorEq, false_implies, implies_true, iff_true]
      exact fun u hu hu' => hid (t.uuids x hx r hr u hu hu')
    | some v =>
      simp only [Option.some_or, Option.some.injEq, forall_eq']
      exact ⟨fun h hx => h v hx rfl,fun h u hu he => h (by rw [hu, he])⟩
  constructor
  · intro h
    exact ⟨fun x hx hid => ((hone x hx hid).mp (h x hx hid)).2,
      fun x hx hid => ((hone x hx hid).mp (h x hx hid)).1⟩
  · rintro ⟨hu,hn⟩ x hx hid
    exact (hone x hx hid).mpr ⟨hn x hx hid,hu x hx hid⟩

section
variable {D : Type} (date : String → D) (now randomUUID : String) {device : Device}

/-- An update by a fingerprint that no row has returns nothing, and one by the
fingerprint of another row meets the name of the row that was found. -/
theorem key_of_update {r : EndpointRow} (he : existing t device = some r)
    {out : List EndpointRow × Option (Endpoint D)} {r' : EndpointRow}
    (hout : updateByFingerprint date now t (updateKey device r) device = some out)
    (hreturned : out.2 = some (parseRow date r')) : r.fingerprint = some (updateKey device r) := by
  by_contra hkey
  obtain ⟨hr,hfound⟩ := existing_eq_some he
  obtain ⟨c,hc,hout⟩ := Option.bind_eq_some_iff.mp hout
  obtain ⟨rows,hrows,rfl⟩ := Option.map_eq_some_iff.mp hout
  obtain ⟨rfl,hclash⟩ := checked_eq_some.mp hrows
  have hname : r.name = device.name := by
    rcases hfound with ⟨f,hf,hrf⟩ | ⟨-,hn⟩
    · rw [updateKey_truthy hf r] at hkey
      exact absurd hrf hkey
    · exact hn
  obtain ⟨y,hy,-⟩ := Option.map_eq_some_iff.mp hreturned
  obtain ⟨x,hx,hxy⟩ := List.mem_map.mp (List.mem_of_find?_eq_some hy)
  have hyf : y.fingerprint = some (updateKey device r) := by simpa using List.find?_some hy
  by_cases hxf : x.fingerprint = some (updateKey device r)
  · have hid : x.id ≠ r.id := by
      intro hid
      rw [t.eq_of_id hx hr hid] at hxf
      exact hkey hxf
    rw [if_pos hxf] at hxy
    have hwritten := hclash y (List.mem_map.mpr ⟨x,hx,by rw [if_pos hxf, hxy]⟩) r
      (List.mem_map.mpr ⟨r,hr,if_neg hkey⟩)
    have hyid : y.id ≠ r.id := by
      rw [← hxy]
      exact hid
    apply ((clash_eq_false hyid).mp hwritten).1
    rw [hname, ← hxy]
    exact (update_uuid hc now x).2.1
  · rw [if_neg hxf] at hxy
    exact hxf (hxy ▸ hyf)

theorem updateByFingerprint_found {r : EndpointRow} (hr : r ∈ t.rows)
    (hkey : r.fingerprint = some (updateKey device r)) :
    updateByFingerprint date now t (updateKey device r) device =
      (serializeEndpoint device false).bind (fun c =>
        (checked (replaced t.rows r (c.update now r))).map (fun rows =>
          (rows,(getByFingerprint rows (updateKey device r)).map (parseRow date)))) := by
  unfold updateByFingerprint
  simp only [map_fingerprint hr hkey]

/-- The row that is written is found again by the fingerprint it was updated
by, if it still has it. -/
theorem getByFingerprint_replaced {r r' : EndpointRow} (hr : r ∈ t.rows) {f : String}
    (hf : r.fingerprint = some f) : getByFingerprint (replaced t.rows r r') f =
      if r'.fingerprint = some f then some r' else none := by
  have hother : ∀ x ∈ t.rows, x.id ≠ r.id → x.fingerprint ≠ some f :=
    fun x hx hid hxf => hid (t.fingerprints x hx r hr f hxf hf)
  unfold getByFingerprint
  split
  · rename_i hf'
    rw [← List.head?_filter, filter_replaced hr (by simpa using hf')
      (fun x hx hid => by simpa using hother x hx hid)]
    rfl
  · rename_i hf'
    rw [List.find?_eq_none]
    intro x hx
    rcases (mem_replaced hr).mp hx with rfl | ⟨hx,hid⟩
    · simpa using hf'
    · simpa using hother x hx hid

theorem upsert_existing {r : EndpointRow} (he : existing t device = some r) :
    upsert date now randomUUID t device =
      updateByFingerprint date now t (updateKey device r) device := by
  unfold upsert
  rw [he]

theorem upsert_fresh (he : existing t device = none) :
    upsert date now randomUUID t device = create date now randomUUID t device := by
  unfold upsert
  rw [he]

theorem upserted_found {r : EndpointRow} (he : existing t device = some r)
    (hlast : device.lastSeenAt ≠ some none) (hw : Writable t device r) :
    ∃ out r', upsert date now randomUUID t device = some out ∧ Upserted date t device out r' := by
  obtain ⟨hr,hfound⟩ := existing_eq_some he
  obtain ⟨c,hc⟩ := serializeEndpoint_isSome.mpr hlast
  obtain ⟨-,hname,hfp⟩ := update_uuid hc now r
  have hf : (c.update now r).fingerprint = some (updateKey device r) := by
    rw [hfp]
    cases hd : device.fingerprint with
    | none => exact hw.key
    | some f => rw [hw.own f hd]; rfl
  have hchecked := (checked_replaced hr).mpr ((update_clash hc now hr).mpr ⟨hw.uuid,hw.name⟩)
  refine ⟨(replaced t.rows r (c.update now r),some (parseRow date (c.update now r))),
    c.update now r,?_,?_,?_,?_,rfl⟩
  · rw [upsert_existing date now randomUUID he, updateByFingerprint_found date now hr hw.key, hc,
      Option.bind_some, hchecked, Option.map_some, getByFingerprint_replaced hr hw.key, if_pos hf]
    rfl
  · apply filter_replaced hr
    · rw [decide_eq_true_eq]
      unfold Matches
      split
      · rename_i hsome
        obtain ⟨q,hq⟩ := Option.isSome_iff_exists.mp hsome
        obtain ⟨f,hdf,-⟩ := Option.bind_eq_some_iff.mp hq
        rw [hf, updateKey_truthy hdf r]
        exact (truthyText_eq_some.mp hdf).1.symm
      · exact hname
    · intro x hx hid
      rw [decide_eq_false_iff_not]
      unfold Matches
      split
      · rename_i hsome
        rcases hfound with ⟨f,hdf,hrf⟩ | ⟨hnone,-⟩
        · rw [(truthyText_eq_some.mp hdf).1]
          exact fun hxf => hid (t.fingerprints x hx r hr f hxf hrf)
        · rw [hnone] at hsome
          cases hsome
      · exact hw.name x hx hid
  · intro q hq
    rw [he] at hq
    cases hq
    exact ⟨rfl,rfl,holds_update hc now r hw.kept⟩
  · intro hn
    rw [he] at hn
    cases hn

theorem insert_uuid {uuid : String} {c : Columns}
    (hc : serializeEndpoint { device with uuid := some uuid } true = some c) (id : ℕ) :
    (c.insert now id).uuid = some uuid ∧ (c.insert now id).name = device.name := by
  obtain ⟨last,-,rfl⟩ := Option.map_eq_some_iff.mp hc
  exact ⟨rfl,rfl⟩

theorem checked_append {new : EndpointRow} (hid : new.id = t.next) :
    checked (t.rows++[new]) = some (t.rows++[new]) ↔
      ∀ x ∈ t.rows, x.name ≠ new.name ∧ ∀ u, x.uuid = some u → new.uuid ≠ some u := by
  have hne : ∀ x ∈ t.rows, x.id ≠ new.id := fun x hx => by
    have := t.below x hx
    omega
  rw [checked_eq_some, and_iff_right rfl]
  constructor
  · intro h x hx
    exact (clash_eq_false (hne x hx)).mp (h x (by simp [hx]) new (by simp))
  · intro h a ha b hb
    rcases List.mem_append.mp ha with ha | ha
    · rcases List.mem_append.mp hb with hb | hb
      · exact t.clash_false ha hb
      · rw [List.mem_singleton.mp hb]
        exact (clash_eq_false (hne a ha)).mpr (h a ha)
    · rw [List.mem_singleton.mp ha]
      rcases List.mem_append.mp hb with hb | hb
      · rw [clash_comm]
        exact (clash_eq_false (hne b hb)).mpr (h b hb)
      · rw [List.mem_singleton.mp hb]
        simp [clash]

theorem upserted_made (hfresh : ∀ x ∈ t.rows, x.uuid ≠ some randomUUID)
    (he : existing t device = none) (hlast : device.lastSeenAt ≠ some none)
    (hw : ∀ u, device.uuid = some u → u ≠ "" ∧ ∀ x ∈ t.rows, x.uuid ≠ some u) :
    ∃ out r', upsert date now randomUUID t device = some out ∧ Upserted date t device out r' := by
  obtain ⟨hnone,hnames⟩ := existing_eq_none he
  obtain ⟨c,hc⟩ : ∃ c, serializeEndpoint
      { device with uuid := some ((truthyText device.uuid).getD randomUUID) } true = some c :=
    serializeEndpoint_isSome.mpr hlast
  obtain ⟨huuid,hname⟩ := insert_uuid now hc t.next
  have hown : ∀ u, device.uuid = some u → u = (truthyText device.uuid).getD randomUUID := by
    intro u hu
    rw [truthyText_eq_some.mpr ⟨hu,(hw u hu).1⟩]
    rfl
  have hfree : ∀ x ∈ t.rows, x.uuid ≠ some ((truthyText device.uuid).getD randomUUID) := by
    intro x hx
    cases hd : truthyText device.uuid with
    | none => exact hfresh x hx
    | some u =>
      obtain ⟨hu,-⟩ := truthyText_eq_some.mp hd
      exact (hw u hu).2 x hx
  have hchecked : checked (t.rows++[c.insert now t.next]) = some (t.rows++[c.insert now t.next]) := by
    rw [checked_append rfl]
    intro x hx
    rw [hname, huuid]
    exact ⟨hnames x hx,fun u hu hu' => hfree x hx (hu.trans hu'.symm)⟩
  have hlast : (t.rows++[c.insert now t.next]).find? (fun r => r.id = t.next) =
      some (c.insert now t.next) := by
    rw [List.find?_append, List.find?_eq_none.mpr]
    · simp [Columns.insert]
    · intro x hx
      have := t.below x hx
      simp only [decide_eq_true_eq]
      omega
  refine ⟨(t.rows++[c.insert now t.next],some (parseRow date (c.insert now t.next))),
    c.insert now t.next,?_,?_,?_,?_,rfl⟩
  · rw [upsert_fresh date now randomUUID he]
    unfold create
    rw [hc, Option.bind_some, hchecked, Option.map_some, hlast]
    rfl
  · have hmatch : ∀ r, Matches t device r ↔ r.name = device.name := by
      intro r
      unfold Matches
      rw [hnone]
      rfl
    rw [List.filter_append, List.filter_eq_nil_iff.mpr]
    · simp [hmatch, hname]
    · intro x hx
      simpa [hmatch] using hnames x hx
  · intro r hr
    rw [he] at hr
    cases hr
  · exact fun _ => ⟨rfl,holds_insert hc now t.next hown⟩

theorem writable_of_upserted {r : EndpointRow} (he : existing t device = some r)
    {out : List EndpointRow × Option (Endpoint D)} {r' : EndpointRow}
    (hout : upsert date now randomUUID t device = some out)
    (hu : Upserted date t device out r') :
    device.lastSeenAt ≠ some none ∧ Writable t device r := by
  rw [upsert_existing date now randomUUID he] at hout
  obtain ⟨hr,-⟩ := existing_eq_some he
  have hkey := key_of_update date now he hout hu.returned
  rw [updateByFingerprint_found date now hr hkey] at hout
  obtain ⟨c,hc,hout⟩ := Option.bind_eq_some_iff.mp hout
  obtain ⟨rows,hrows,rfl⟩ := Option.map_eq_some_iff.mp hout
  obtain rfl := (checked_eq_some.mp hrows).1
  obtain ⟨hplace,-,hholds⟩ := hu.found r he
  obtain rfl := replaced_inj hr hplace
  obtain ⟨huuid,hname⟩ := (update_clash hc now hr).mp ((checked_replaced hr).mp hrows)
  refine ⟨serializeEndpoint_isSome.mp ⟨c,hc⟩,hkey,?_,?_,huuid,hname⟩
  · intro f hf
    have hreturned := hu.returned
    rw [getByFingerprint_replaced hr hkey] at hreturned
    split at hreturned
    · rename_i hwritten
      rw [hholds.fingerprint f hf] at hwritten
      exact Option.some.inj hwritten
    · cases hreturned
  · intro u v hru hv
    have hboth := hholds.kept u hru
    rw [(update_uuid hc now r).1, hv] at hboth
    exact (Option.some.inj hboth).symm

theorem free_of_upserted (hrandom : randomUUID ≠ "") (he : existing t device = none)
    {out : List EndpointRow × Option (Endpoint D)} {r' : EndpointRow}
    (hout : upsert date now randomUUID t device = some out)
    (hu : Upserted date t device out r') : device.lastSeenAt ≠ some none ∧
      ∀ u, device.uuid = some u → u ≠ "" ∧ ∀ x ∈ t.rows, x.uuid ≠ some u := by
  rw [upsert_fresh date now randomUUID he] at hout
  obtain ⟨c,hc,hout⟩ := Option.bind_eq_some_iff.mp hout
  obtain ⟨rows,hrows,rfl⟩ := Option.map_eq_some_iff.mp hout
  obtain rfl := (checked_eq_some.mp hrows).1
  obtain ⟨hplace,hholds⟩ := hu.made he
  obtain rfl := List.singleton_inj.mp (List.append_cancel_left hplace)
  obtain ⟨hnew,-⟩ := insert_uuid now hc t.next
  have hlast : ∃ c, serializeEndpoint
      { device with uuid := some ((truthyText device.uuid).getD randomUUID) } true = some c :=
    ⟨c,hc⟩
  refine ⟨(serializeEndpoint_isSome.mp hlast :),fun u hu' => ?_⟩
  have hown := hholds.uuid rfl u hu'
  rw [hnew, hu', Option.some.injEq] at hown
  constructor
  · rintro rfl
    exact hrandom hown
  · intro x hx hxu
    apply ((checked_append rfl).mp hrows x hx).2 u hxu
    rw [hnew, hu', hown]

end

def pumpRow (fingerprint : Option String) : EndpointRow where
  id := 1
  uuid := some "u0"
  name := "pump"
  protocol := "modbus"
  group_name := none
  enabled := true
  poll_interval := 5000
  connection := .obj []
  data_points := none
  metadata := none
  created_at := "t0"
  updated_at := "t0"
  lastSeenAt := none
  fingerprint := fingerprint

theorem pumpRow_only {fingerprint : Option String} {a b : EndpointRow}
    (ha : a ∈ [pumpRow fingerprint]) (hb : b ∈ [pumpRow fingerprint]) : a.id = b.id := by
  rw [List.mem_singleton.mp ha, List.mem_singleton.mp hb]

def pumpTable (fingerprint : Option String) : EndpointTable where
  rows := [pumpRow fingerprint]
  next := 2
  below r hr := by
    rw [List.mem_singleton.mp hr]
    exact Nat.one_lt_two
  ids := List.nodup_singleton _
  names _ ha _ hb _ := pumpRow_only ha hb
  uuids _ ha _ hb _ _ _ := pumpRow_only ha hb
  fingerprints _ ha _ hb _ _ _ := pumpRow_only ha hb

def pump (uuid fingerprint : Option String) : Device where
  uuid := uuid
  fingerprint := fingerprint
  name := "pump"
  protocol := "modbus"
  groupName := none
  enabled := false
  poll_interval := 1000
  connection := []
  data_points := none
  metadata := none
  lastSeenAt := none

end Iotistica.EndpointUpserts
