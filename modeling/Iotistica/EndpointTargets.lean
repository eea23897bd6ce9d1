import Iotistica.EndpointPasses

/-!
# Which targets the endpoints reach

After a reconciliation the table should hold exactly the targets, each as
`normalizeDevice` reads it. It does so for the endpoints whose writes do not
fail exactly when both passes read each of them alike and the first one got
to it, or found nothing to change that the second leaves alone.
-/

set_option autoImplicit false

namespace Iotistica.Endpoints
open Iotistica

variable {J : Type}

/-- The row has what the target is normalized to. A member the target does
not have asks for nothing. -/
def Carries (d : Target J) (row : Row J) : Prop :=
  row.name = d.name ∧ row.protocol = (normalizeDevice d).protocol ∧
    row.enabled = (normalizeDevice d).enabled ∧
    row.poll_interval = (normalizeDevice d).poll_interval ∧
    (∀ c ∈ (normalizeDevice d).connection, row.connection = c) ∧
    (∀ m ∈ (normalizeDevice d).metadata, row.metadata = some m)

def targetPoints (d : Target J) : List J := (normalizeDevice d).data_points.getD []

def fallbackPoints (env : Surroundings J) (db : Db J) (d : Target J) (uuid : String) : List J :=
  match db.rows.get? uuid with
  | some row => row.data_points.getD []
  | none => cachedPoints env (normalizeDevice d).connection

def wantedPoints (env : Surroundings J) (db : Db J) (d : Target J) (uuid : String) : List J :=
  if targetPoints d ≠ [] then targetPoints d else fallbackPoints env db d uuid

/-- Outside the endpoints whose writes fail, the table `final` has the uuids
of the targets and each row what its target says. -/
def ReachesTarget (env : Surroundings J) (db : Db J) (devices : List (Target J)) (final : Db J) :
    Prop :=
  (∀ uuid, uuid ≠ "" → env.fails uuid = false →
    (uuid ∈ final.rows.keys ↔ ∃ d ∈ devices, canonicalId env d = some uuid)) ∧
  ∀ d ∈ devices, ∀ uuid, canonicalId env d = some uuid → env.fails uuid = false →
    ∀ row, final.rows.get? uuid = some row →
      Carries d row ∧ row.data_points.getD [] = wantedPoints env db d uuid

def ReadAlike (env : Surroundings J) (d : Target J) : Prop :=
  (nonzero d.pollInterval).getD 5000 = (normalizeDevice d).poll_interval ∧
    (∀ c ∈ d.connection, resolveAdapterConnection env d = c) ∧
    (∀ m ∈ d.metadata, buildEndpointMetadata d (resolveAdapterConnection env d) false = m)

def PlacedAt (env : Surroundings J) (d : Target J) (first : Prop) : Option (Row J) → Prop
  | some row => first ∨ (row.name = d.name ∧
      (adapterPoints d = [] → targetPoints d ≠ [] → row.data_points.getD [] = targetPoints d))
  | none => first ∧ (adapterPoints d = [] → targetPoints d ≠ [] →
      cachedPoints env d.connection = [] ∨ cachedPoints env d.connection = targetPoints d)

def Placed (env : Surroundings J) (db : Db J) (d : Target J) (uuid : String) (first : Prop) : Prop :=
  PlacedAt env d first (db.rows.get? uuid)

def Agreeable (env : Surroundings J) (db : Db J) (devices : List (Target J)) : Prop :=
  ∀ d ∈ devices, ∀ uuid, canonicalId env d = some uuid → env.fails uuid = false →
    ReadAlike env d ∧ (adapterPoints d ≠ [] → adapterPoints d = wantedPoints env db d uuid) ∧
      Placed env db d uuid ((d,uuid) ∈ written env db [] devices)

theorem points_preserved (row : Row J) (points : Option (List J)) :
    ((preserved row points).or row.data_points).getD [] =
      if points.getD [] ≠ [] then points.getD [] else row.data_points.getD [] := by
  rw [preserved]
  by_cases hp : points.getD [] = []
  · rw [if_neg (not_not_intro hp)]
    by_cases hr : row.data_points.getD [] = []
    · rw [if_neg (fun h => h.1 hr)]
      cases points with
      | none => rfl
      | some ps => exact hp.trans hr.symm
    · rw [if_pos ⟨hr,hp⟩, Option.or_self]
  · rw [if_pos hp, if_neg (fun h => hp h.2)]
    cases points with
    | none => exact absurd rfl hp
    | some ps => rfl

theorem points_updatedRow (env : Surroundings J) (d : Target J) (row : Row J) :
    (updatedRow env d row).data_points.getD [] =
      if adapterPoints d ≠ [] then adapterPoints d else row.data_points.getD [] :=
  points_preserved row (some (adapterPoints d))

theorem points_writtenRow_stored (env : Surroundings J) (db : Db J) (d : Target J) (uuid : String)
    (row : Row J) (hg : db.rows.get? uuid = some row) :
    (writtenRow env db d uuid).data_points.getD [] = wantedPoints env db d uuid := by
  rw [writtenRow, wantedPoints, fallbackPoints, hg]
  exact points_preserved row (normalizeDevice d).data_points

theorem points_writtenRow_new (env : Surroundings J) (db : Db J) (d : Target J) (uuid : String)
    (hg : db.rows.get? uuid = none) :
    (writtenRow env db d uuid).data_points.getD [] =
      if cachedPoints env d.connection ≠ [] then cachedPoints env d.connection
      else targetPoints d := by
  rw [writtenRow, hg]
  show (initialPoints env (normalizeDevice d)).getD [] = _
  rw [initialPoints]
  by_cases hc : cachedPoints env (normalizeDevice d).connection ≠ []
  · rw [if_pos hc]
    exact (if_pos hc).symm
  · rw [if_neg hc]
    exact (if_neg hc).symm

/-- The second pass leaves a row as its target is normalized exactly when the
two readings agree and the row has the name. -/
theorem carries_updatedRow (env : Surroundings J) (d : Target J) (row : Row J) :
    Carries d (updatedRow env d row) ↔ row.name = d.name ∧ ReadAlike env d := by
  constructor
  · rintro ⟨h1,_,_,h4,h5,h6⟩
    refine ⟨h1,h4,h5,fun m hm => ?_⟩
    exact Option.some.inj (h6 m hm)
  · rintro ⟨h1,h4,h5,h6⟩
    exact ⟨h1,rfl,rfl,h4,h5,fun m hm => congrArg some (h6 m hm)⟩

theorem points_iff (p stored wanted : List J) :
    (if p ≠ [] then p else stored) = wanted ↔
      (p ≠ [] → p = wanted) ∧ (p = [] → stored = wanted) := by
  by_cases hp : p = []
  · rw [if_neg (not_not_intro hp)]
    exact ⟨fun h => ⟨fun hn => absurd hp hn,fun _ => h⟩,fun h => h.2 hp⟩
  · rw [if_pos hp]
    exact ⟨fun h => ⟨fun _ => h,fun hn => absurd hn hp⟩,fun h => h.1 hp⟩

theorem stored_eq_wanted_iff (env : Surroundings J) (db : Db J) (d : Target J) (uuid : String)
    (row : Row J) (hg : db.rows.get? uuid = some row) :
    row.data_points.getD [] = wantedPoints env db d uuid ↔
      (targetPoints d ≠ [] → row.data_points.getD [] = targetPoints d) := by
  rw [wantedPoints, fallbackPoints, hg]
  by_cases ht : targetPoints d = []
  · rw [if_neg (not_not_intro ht)]
    exact iff_of_true rfl (fun hn => absurd ht hn)
  · rw [if_pos ht]
    exact ⟨fun h _ => h,fun h => h ht⟩

theorem initial_eq_wanted_iff (env : Surroundings J) (db : Db J) (d : Target J) (uuid : String)
    (hg : db.rows.get? uuid = none) :
    (if cachedPoints env d.connection ≠ [] then cachedPoints env d.connection else targetPoints d) =
        wantedPoints env db d uuid ↔
      (targetPoints d ≠ [] →
        cachedPoints env d.connection = [] ∨ cachedPoints env d.connection = targetPoints d) := by
  have hw : wantedPoints env db d uuid =
      if targetPoints d ≠ [] then targetPoints d else cachedPoints env d.connection := by
    rw [wantedPoints, fallbackPoints, hg]
    rfl
  rw [hw]
  by_cases ht : targetPoints d = []
  · rw [if_neg (not_not_intro ht), ht]
    refine iff_of_true ?_ (fun hn => absurd rfl hn)
    by_cases hc : cachedPoints env d.connection = []
    · rw [if_neg (not_not_intro hc), hc]
    · rw [if_pos hc]
  · rw [if_pos ht]
    by_cases hc : cachedPoints env d.connection = []
    · rw [if_neg (not_not_intro hc)]
      exact iff_of_true rfl (fun _ => .inl hc)
    · rw [if_pos hc]
      exact ⟨fun h _ => .inr h,fun h => (h ht).resolve_left hc⟩

theorem reaches_written_iff (env : Surroundings J) (db : Db J) (d : Target J) (uuid : String) :
    (Carries d (updatedRow env d (writtenRow env db d uuid)) ∧
      (updatedRow env d (writtenRow env db d uuid)).data_points.getD [] =
        wantedPoints env db d uuid) ↔
    ReadAlike env d ∧ (adapterPoints d ≠ [] → adapterPoints d = wantedPoints env db d uuid) ∧
      Placed env db d uuid True := by
  rw [carries_updatedRow, points_updatedRow, points_iff, name_writtenRow, Placed]
  cases hg : db.rows.get? uuid with
  | some row =>
    rw [points_writtenRow_stored env db d uuid row hg]
    constructor
    · exact fun h => ⟨h.1.2,h.2.1,.inl trivial⟩
    · exact fun h => ⟨⟨rfl,h.1⟩,h.2.1,fun _ => rfl⟩
  | none =>
    rw [points_writtenRow_new env db d uuid hg]
    constructor
    · rintro ⟨⟨_,hr⟩,hp,hq⟩
      exact ⟨hr,hp,trivial,fun h => (initial_eq_wanted_iff env db d uuid hg).mp (hq h)⟩
    · rintro ⟨hr,hp,_,hq⟩
      exact ⟨⟨rfl,hr⟩,hp,fun h => (initial_eq_wanted_iff env db d uuid hg).mpr (hq h)⟩

theorem reaches_stored_iff (env : Surroundings J) (db : Db J) (d : Target J) (uuid : String)
    (row : Row J) (hg : db.rows.get? uuid = some row) :
    (Carries d (updatedRow env d row) ∧
      (updatedRow env d row).data_points.getD [] = wantedPoints env db d uuid) ↔
    ReadAlike env d ∧ (adapterPoints d ≠ [] → adapterPoints d = wantedPoints env db d uuid) ∧
      Placed env db d uuid False := by
  rw [carries_updatedRow, points_updatedRow, points_iff, Placed, hg]
  constructor
  · rintro ⟨⟨hn,hr⟩,hp,hq⟩
    exact ⟨hr,hp,.inr ⟨hn,fun h => (stored_eq_wanted_iff env db d uuid row hg).mp (hq h)⟩⟩
  · rintro ⟨hr,hp,h | ⟨hn,hq⟩⟩
    · exact h.elim
    · exact ⟨⟨hn,hr⟩,hp,fun h => (stored_eq_wanted_iff env db d uuid row hg).mpr (hq h)⟩

theorem placed_congr (env : Surroundings J) (db : Db J) (d : Target J) (uuid : String)
    {p q : Prop} (h : p ↔ q) : Placed env db d uuid p ↔ Placed env db d uuid q := by
  rw [propext h]

theorem mem_keys_iff (m : OrderedMap String (Row J)) (uuid : String) :
    uuid ∈ m.keys ↔ ∃ row, m.get? uuid = some row := by
  rw [← not_iff_not, ← get?_none_iff, Option.eq_none_iff_forall_ne_some, not_exists]

theorem mem_currentIds (db : Db J) (id : String) : id ∈ currentIds db ↔ id ∈ db.rows.keys ∧ id ≠ "" := by
  rw [currentIds, List.mem_filter, decide_eq_true_iff]

theorem mem_currentIds_target {env : Surroundings J} {devices : List (Target J)} (db : Db J)
    {d : Target J} {uuid : String} (h : (d,uuid) ∈ targetDevices env devices) :
    uuid ∈ currentIds db ↔ uuid ∈ db.rows.keys := by
  rw [mem_currentIds]
  exact and_iff_left (uuid_of_canonicalId ((mem_targetDevices env devices d uuid).mp h).2).2

def AllPlaced (env : Surroundings J) (db : Db J) (devices : List (Target J)) : Prop :=
  ∀ t ∈ targetDevices env devices, env.fails t.2 = false → t.2 ∈ db.rows.keys

theorem executeSteps_calculateSteps {env : Surroundings J} {db : Db J} {devices : List (Target J)}
    (h : AllPlaced env db devices) :
    executeSteps env db (calculateSteps env db devices) =
      executeSteps env
        (executeSteps env db (((currentIds db).filter
          (fun id => decide (id ∉ (targetDevices env devices).map Prod.snd))).map .unregisterDevice))
        (((targetDevices env devices).filter (fun t => decide (t.2 ∈ currentIds db))).map
          (fun t => .updateDevice t.1 t.2)) := by
  rw [calculateSteps, executeSteps_append, executeSteps_append, executeSteps_registrations]
  intro t ht
  obtain ⟨ht,hout⟩ := List.mem_filter.mp ht
  by_contra hf
  refine of_decide_eq_true hout ((mem_currentIds_target db ht).mpr ?_)
  exact h t ht (Bool.not_eq_true _ ▸ hf)

theorem get?_second_target {env : Surroundings J} {db : Db J} {devices : List (Target J)}
    (hids : IdsDistinct env devices) (h : AllPlaced env db devices) {d : Target J} {uuid : String}
    {row : Row J} (hm : (d,uuid) ∈ targetDevices env devices) (hf : env.fails uuid = false)
    (hg : db.rows.get? uuid = some row) :
    (executeSteps env db (calculateSteps env db devices)).rows.get? uuid =
      some (updatedRow env d row) := by
  rw [executeSteps_calculateSteps h]
  have hk : uuid ∈ currentIds db :=
    (mem_currentIds_target db hm).mpr ((mem_keys_iff _ _).mpr ⟨row,hg⟩)
  apply get?_updates
  · exact (targetDevices_nodup env devices hids).sublist (List.filter_sublist.map _)
  · exact List.mem_filter.mpr ⟨hm,decide_eq_true hk⟩
  · exact hf
  · rw [get?_unregistrations, if_neg]
    · exact hg
    · intro hu
      exact of_decide_eq_true (List.mem_filter.mp hu).2 (List.mem_map_of_mem hm)

theorem get?_second_other {env : Surroundings J} {db : Db J} {devices : List (Target J)}
    (h : AllPlaced env db devices) {uuid : String} (hne : uuid ≠ "")
    (hout : uuid ∉ (targetDevices env devices).map Prod.snd) :
    (executeSteps env db (calculateSteps env db devices)).rows.get? uuid = none := by
  rw [executeSteps_calculateSteps h, get?_updates_ne, get?_unregistrations]
  · split
    · rfl
    · next hu =>
      apply (get?_none_iff _ _).mpr
      intro hk
      exact hu (List.mem_filter.mpr ⟨(mem_currentIds db uuid).mpr ⟨hk,hne⟩,decide_eq_true hout⟩)
  · intro hm
    exact hout ((List.filter_sublist.map Prod.snd).subset hm)

/-- A target that the first pass left without a row never gets one: the
second creates it under a random uuid. -/
theorem get?_second_absent {env : Surroundings J} {db : Db J} {devices : List (Target J)}
    (hr : ∀ d ∈ devices, ∀ d' ∈ devices, d'.uuid ≠ some (env.randomUUID d))
    {d : Target J} {uuid : String} (hm : (d,uuid) ∈ targetDevices env devices)
    (hg : db.rows.get? uuid = none) :
    (executeSteps env db (calculateSteps env db devices)).rows.get? uuid = none := by
  apply get?_executeSteps_none _ _ db hg
  obtain ⟨hd,hc⟩ := (mem_targetDevices env devices d uuid).mp hm
  intro st hst
  rw [calculateSteps] at hst
  rcases List.mem_append.mp hst with hst | hst
  · obtain ⟨t,ht,rfl⟩ := List.mem_map.mp hst
    obtain ⟨ht,_⟩ := (mem_targetDevices env devices t.1 t.2).mp (List.mem_filter.mp ht).1
    intro he
    exact hr t.1 ht d hd ((uuid_of_canonicalId hc).1.trans (congrArg some he.symm))
  rcases List.mem_append.mp hst with hst | hst
  · obtain ⟨id,_,rfl⟩ := List.mem_map.mp hst
    trivial
  · obtain ⟨t,ht,rfl⟩ := List.mem_map.mp hst
    intro he
    have hk := (mem_currentIds db t.2).mp (of_decide_eq_true (List.mem_filter.mp ht).2)
    rw [show t.2 = uuid from he] at hk
    exact (get?_none_iff _ _).mp hg hk.1

theorem mem_targetIds (env : Surroundings J) (devices : List (Target J)) (uuid : String) :
    uuid ∈ (targetDevices env devices).map Prod.snd ↔
      ∃ d ∈ devices, canonicalId env d = some uuid := by
  rw [List.mem_map]
  constructor
  · rintro ⟨t,ht,rfl⟩
    exact ⟨t.1,(mem_targetDevices env devices t.1 t.2).mp ht⟩
  · rintro ⟨d,hd⟩
    exact ⟨(d,uuid),(mem_targetDevices env devices d uuid).mpr hd,rfl⟩

theorem reachesTarget_iff_rows {env : Surroundings J} {db synced : Db J} {devices : List (Target J)}
    (hids : IdsDistinct env devices) (h : AllPlaced env synced devices) :
    ReachesTarget env db devices (executeSteps env synced (calculateSteps env synced devices)) ↔
      ∀ d ∈ devices, ∀ uuid, canonicalId env d = some uuid → env.fails uuid = false →
        ∀ row, synced.rows.get? uuid = some row → Carries d (updatedRow env d row) ∧
          (updatedRow env d row).data_points.getD [] = wantedPoints env db d uuid := by
  constructor
  · rintro ⟨_,h2⟩ d hd uuid hc hf row hg
    have hm := (mem_targetDevices env devices d uuid).mpr ⟨hd,hc⟩
    exact h2 d hd uuid hc hf _ (get?_second_target hids h hm hf hg)
  · intro hrows
    refine ⟨fun uuid hne hf => ?_,fun d hd uuid hc hf row hg => ?_⟩
    · rw [← mem_targetIds]
      constructor
      · intro hk
        by_contra hout
        exact (get?_none_iff _ _).mp (get?_second_other h hne hout) hk
      · intro hm
        obtain ⟨t,ht,rfl⟩ := List.mem_map.mp hm
        obtain ⟨row,hrow⟩ := (mem_keys_iff _ _).mp (h t ht hf)
        exact (mem_keys_iff _ _).mpr ⟨_,get?_second_target hids h ht hf hrow⟩
    · have hm := (mem_targetDevices env devices d uuid).mpr ⟨hd,hc⟩
      obtain ⟨stored,hs⟩ := (mem_keys_iff _ _).mp (h (d,uuid) hm hf)
      rw [get?_second_target hids h hm hf hs] at hg
      cases hg
      exact hrows d hd uuid hc hf stored hs

/-- A target that has a row after the first pass ends as it should exactly
when it is read alike, keeps its points and was placed. -/
theorem reaches_synced_iff {env : Surroundings J} {db : Db J} {devices : List (Target J)}
    (hids : IdsDistinct env devices) (hnames : (devices.map Target.name).Nodup) {d : Target J}
    {uuid : String} {row : Row J} (hm : (d,uuid) ∈ targetDevices env devices)
    (hrow : (syncDevicesToDatabase env db devices).rows.get? uuid = some row) :
    (Carries d (updatedRow env d row) ∧
      (updatedRow env d row).data_points.getD [] = wantedPoints env db d uuid) ↔
    ReadAlike env d ∧ (adapterPoints d ≠ [] → adapterPoints d = wantedPoints env db d uuid) ∧
      Placed env db d uuid ((d,uuid) ∈ written env db [] devices) := by
  by_cases hw : (d,uuid) ∈ written env db [] devices
  · rw [(get?_syncDevicesToDatabase env db devices hids hnames).1 d uuid hw] at hrow
    cases hrow
    rw [placed_congr env db d uuid (iff_true_intro hw)]
    exact reaches_written_iff env db d uuid
  · rw [get?_synced_unwritten hids hnames hm hw] at hrow
    rw [placed_congr env db d uuid (iff_false_intro hw)]
    exact reaches_stored_iff env db d uuid row hrow

/-- A target without a row after the first pass was neither written by it nor
stored before. -/
theorem not_placed_of_absent {env : Surroundings J} {db : Db J} {devices : List (Target J)}
    (hids : IdsDistinct env devices) (hnames : (devices.map Target.name).Nodup) {d : Target J}
    {uuid : String} (hm : (d,uuid) ∈ targetDevices env devices)
    (hnone : (syncDevicesToDatabase env db devices).rows.get? uuid = none) :
    ¬Placed env db d uuid ((d,uuid) ∈ written env db [] devices) := by
  have hw : (d,uuid) ∉ written env db [] devices := by
    intro hw
    rw [(get?_syncDevicesToDatabase env db devices hids hnames).1 d uuid hw] at hnone
    cases hnone
  rw [get?_synced_unwritten hids hnames hm hw] at hnone
  rw [Placed, hnone]
  exact fun h => hw h.1

/-- Outside the endpoints whose writes fail, the table reaches the target
exactly when every target is read alike by both passes, keeps its points,
and was written by the first pass or stored under its name. -/
theorem endpoints_reach_target_iff (env : Surroundings J) (db : Db J) (devices : List (Target J))
    (huuids : (devices.filterMap Target.uuid).Nodup) (hnames : (devices.map Target.name).Nodup)
    (hrandom : ∀ d ∈ devices, ∀ d' ∈ devices, d'.uuid ≠ some (env.randomUUID d)) :
    ReachesTarget env db devices (reconcile env db devices) ↔ Agreeable env db devices := by
  have hids := idsDistinct env devices huuids
  rw [reconcile]
  by_cases hall : AllPlaced env (syncDevicesToDatabase env db devices) devices
  · rw [reachesTarget_iff_rows hids hall]
    refine forall_congr' fun d => forall_congr' fun hd => forall_congr' fun uuid =>
      forall_congr' fun hc => forall_congr' fun hf => ?_
    have hm := (mem_targetDevices env devices d uuid).mpr ⟨hd,hc⟩
    obtain ⟨row,hrow⟩ := (mem_keys_iff _ _).mp (hall (d,uuid) hm hf)
    rw [← reaches_synced_iff hids hnames hm hrow, hrow]
    constructor
    · exact fun h => h row rfl
    · rintro h row' hrow'
      cases hrow'
      exact h
  · -- some target has no row after the first pass, and the second gives it none
    rw [AllPlaced, not_forall] at hall
    obtain ⟨⟨d,uuid⟩,hall⟩ := hall
    rw [Classical.not_imp, Classical.not_imp] at hall
    obtain ⟨hm,hf,hout⟩ := hall
    have hnone := (get?_none_iff _ _).mpr hout
    obtain ⟨hd,hc⟩ := (mem_targetDevices env devices d uuid).mp hm
    refine iff_of_false (fun hreach => ?_) (fun hagree => ?_)
    · have hk := (hreach.1 uuid (uuid_of_canonicalId hc).2 hf).mpr ⟨d,hd,hc⟩
      exact (get?_none_iff _ _).mp (get?_second_absent hrandom hm hnone) hk
    · exact not_placed_of_absent hids hnames hm hnone (hagree d hd uuid hc hf).2.2

variable [DecidableEq J]

instance (env : Surroundings J) (d : Target J) : Decidable (ReadAlike env d) :=
  inferInstanceAs (Decidable (_ ∧ (∀ c ∈ d.connection, resolveAdapterConnection env d = c) ∧
    (∀ m ∈ d.metadata, buildEndpointMetadata d (resolveAdapterConnection env d) false = m)))

instance (env : Surroundings J) (d : Target J) (first : Prop) [Decidable first] :
    (row : Option (Row J)) → Decidable (PlacedAt env d first row)
  | some _ => inferInstanceAs (Decidable (_ ∨ _))
  | none => inferInstanceAs (Decidable (_ ∧ _))

instance (env : Surroundings J) (db : Db J) (d : Target J) (uuid : String) (first : Prop)
    [Decidable first] : Decidable (Placed env db d uuid first) :=
  inferInstanceAs (Decidable (PlacedAt _ _ _ _))

instance (env : Surroundings J) (db : Db J) (devices : List (Target J)) :
    Decidable (Agreeable env db devices) :=
  decidable_of_iff (∀ t ∈ targetDevices env devices, env.fails t.2 = false → ReadAlike env t.1 ∧
      (adapterPoints t.1 ≠ [] → adapterPoints t.1 = wantedPoints env db t.1 t.2) ∧
      Placed env db t.1 t.2 (t ∈ written env db [] devices))
    ⟨fun h d hd uuid hc => h (d,uuid) ((mem_targetDevices env devices d uuid).mpr ⟨hd,hc⟩),
      fun h t ht =>
        have hm := (mem_targetDevices env devices t.1 t.2).mp ht
        h t.1 hm.1 t.2 hm.2⟩

def plc (uuid name : String) (points : Option (List ℕ)) : Target ℕ where
  uuid := some uuid
  name := name
  protocol := "modbus"
  enabled := none
  pollInterval := some 1000
  poll_interval := none
  connection := some (Finmap.singleton "host" (.str "10.0.0.7"))
  connectionString := none
  dataPoints := points
  data_points := none
  registers := none
  metadata := none

def quietSite (failing : List String) : Surroundings ℕ where
  parseJson _ := none
  parseUrl _ := none
  discovered _ := []
  randomUUID d := "random-"++d.name
  fails uuid := decide (uuid ∈ failing)

def storedRow (name : String) : Row ℕ where
  fingerprint := none
  name := name
  protocol := "modbus"
  enabled := true
  poll_interval := 5000
  connection := ∅
  data_points := some [40001]
  metadata := none

def stored : Db ℕ := ⟨⟨[("u1",storedRow "press"),("u9",storedRow "retired")],by decide⟩,[]⟩

/-- One endpoint is stored and keeps its points, one is new, one retires, and
the last one fails. -/
def plant : List (Target ℕ) :=
  [plc "u1" "press" none,plc "u2" "oven" (some [1,2]),plc "u3" "fan" none]

theorem endpoints_reach_target_plant :
    ReachesTarget (quietSite ["u3"]) stored plant (reconcile (quietSite ["u3"]) stored plant) :=
  (endpoints_reach_target_iff (quietSite ["u3"]) stored plant (by decide +kernel)
    (by decide +kernel) (by decide +kernel)).mpr (by decide +kernel)

/-- One endpoint fails, and the one after it in the list is stored under a
random uuid. -/
theorem second_endpoint_unreached : ¬∀ (env : Surroundings ℕ) (db : Db ℕ)
    (devices : List (Target ℕ)), (devices.filterMap Target.uuid).Nodup →
    (devices.map Target.name).Nodup →
    (∀ d ∈ devices, ∀ d' ∈ devices, d'.uuid ≠ some (env.randomUUID d)) →
    ReachesTarget env db devices (reconcile env db devices) := by
  intro h
  have hreach := h (quietSite ["u1"]) ⟨OrderedMap.empty,[]⟩ [plc "u1" "press" none,plc "u2" "oven" none]
    (by decide +kernel) (by decide +kernel) (by decide +kernel)
  have hk := (hreach.1 "u2" (by decide) rfl).mpr
    ⟨plc "u2" "oven" none,by decide +kernel,by decide +kernel⟩
  exact absurd hk (by decide +kernel)

end Iotistica.Endpoints
