import Iotistica.EndpointReconcile

/-!
# What the two passes leave in the table

Each pass is read row by row. The first writes the targets up to the first
one that is refused; whether a target is refused can be told from the table
at the start and the targets written before. The second removes what is no
target and writes every target that is in the table.
-/

set_option autoImplicit false

namespace Iotistica.Endpoints
open Iotistica

variable {J : Type}

theorem uuid_of_canonicalId {env : Surroundings J} {d : Target J} {uuid : String}
    (h : canonicalId env d = some uuid) : d.uuid = some uuid ∧ uuid ≠ "" := by
  rw [canonicalId] at h
  split at h
  · cases h
  · obtain ⟨hu,hne⟩ := Option.filter_eq_some_iff.mp h
    exact ⟨hu,of_decide_eq_true hne⟩

theorem mem_targetDevices (env : Surroundings J) (devices : List (Target J)) (d : Target J)
    (uuid : String) :
    (d,uuid) ∈ targetDevices env devices ↔ d ∈ devices ∧ canonicalId env d = some uuid := by
  rw [targetDevices, List.mem_filterMap]
  constructor
  · rintro ⟨d',hd,h⟩
    obtain ⟨u,hu,he⟩ := Option.map_eq_some_iff.mp h
    cases he
    exact ⟨hd,hu⟩
  · rintro ⟨hd,hu⟩
    exact ⟨d,hd,by rw [hu]; rfl⟩

def IdsDistinct (env : Surroundings J) (devices : List (Target J)) : Prop :=
  devices.Pairwise (fun a b => ∀ uuid, canonicalId env a = some uuid → canonicalId env b ≠ some uuid)

theorem idsDistinct (env : Surroundings J) (devices : List (Target J))
    (h : (devices.filterMap Target.uuid).Nodup) : IdsDistinct env devices := by
  refine (List.pairwise_filterMap.mp h).imp (fun {a b} hab uuid ha hb => ?_)
  exact hab uuid (uuid_of_canonicalId ha).1 uuid (uuid_of_canonicalId hb).1 rfl

theorem targetDevices_nodup (env : Surroundings J) (devices : List (Target J))
    (h : IdsDistinct env devices) : ((targetDevices env devices).map Prod.snd).Nodup := by
  rw [targetDevices, List.map_filterMap, List.Nodup, List.pairwise_filterMap]
  refine h.imp (fun {a b} hab x hx y hy hxy => ?_)
  simp only [Option.map_map, Option.map_eq_some_iff, Function.comp_apply] at hx hy
  obtain ⟨u,hu,rfl⟩ := hx
  obtain ⟨v,hv,rfl⟩ := hy
  exact hab u hu (hv.trans (congrArg some hxy.symm))

theorem eq_of_targetDevices {env : Surroundings J} {devices : List (Target J)}
    (h : IdsDistinct env devices) {d d' : Target J} {uuid : String}
    (hd : (d,uuid) ∈ targetDevices env devices) (hd' : (d',uuid) ∈ targetDevices env devices) :
    d = d' :=
  congrArg Prod.fst (List.inj_on_of_nodup_map (targetDevices_nodup env devices h) hd hd' rfl)

def nameHeld (db : Db J) (done : List String) (uuid name : String) : Bool :=
  db.rows.entries.any
    (fun e => decide (e.1 ≠ uuid) && decide (e.1 ∉ done) && decide (e.2.name = name))

/-- The write of a target fails: it is one of those that do, its row would be
new and have no connection, or its name is held by another row. -/
def refused (env : Surroundings J) (db : Db J) (done : List String) (d : Target J) (uuid : String) :
    Bool :=
  env.fails uuid || (decide (uuid ∉ db.rows.keys) && d.connection.isNone) ||
    nameHeld db done uuid d.name

def written (env : Surroundings J) (db : Db J) : List String → List (Target J) →
    List (Target J × String)
  | _, [] => []
  | done, d::ds =>
    match canonicalId env d with
    | none => written env db done ds
    | some uuid =>
      if refused env db done d uuid then [] else (d,uuid)::written env db (uuid::done) ds

def writtenRow (env : Surroundings J) (db : Db J) (d : Target J) (uuid : String) : Row J :=
  match db.rows.get? uuid with
  | some row =>
    ({ normalizeDevice d with
      data_points := preserved row (normalizeDevice d).data_points } : Updates J).apply row
  | none =>
    newRow d.name { normalizeDevice d with data_points := initialPoints env (normalizeDevice d) }
      (d.connection.getD ∅)

/-- A table in the middle of the pass: rows of `done` have been written and
carry names of their targets, the others are as at the start. -/
structure Midway (db : Db J) (done names : List String) (now : Db J) : Prop where
  missing : now.missing = []
  old : ∀ uuid, uuid ∉ done → now.rows.get? uuid = db.rows.get? uuid
  named : ∀ uuid ∈ done, ∀ row, now.rows.get? uuid = some row → row.name ∈ names

theorem nameTaken_eq_nameHeld {db now : Db J} {done names : List String} {name : String}
    (h : Midway db done names now) (uuid : String) (hn : name ∉ names) :
    nameTaken now uuid name = nameHeld db done uuid name := by
  rw [Bool.eq_iff_iff, nameTaken_iff now uuid name h.missing, nameHeld, List.any_eq_true]
  constructor
  · rintro ⟨k,row,hg,hk,hname⟩
    have hd : k ∉ done := by
      intro hd
      exact hn (hname ▸ h.named k hd row hg)
    refine ⟨(k,row),(OrderedMap.get?_eq_some_iff _ _ _).mp (h.old k hd ▸ hg),?_⟩
    simp [hk, hd, hname]
  · rintro ⟨e,he,h1⟩
    simp only [Bool.and_eq_true, decide_eq_true_iff] at h1
    exact ⟨e.1,e.2,(h.old e.1 h1.1.2).trans (OrderedMap.get?_of_mem he),h1.1.1,h1.2⟩

theorem syncDevice_eq {env : Surroundings J} {db now : Db J} {done names : List String}
    {d : Target J} {uuid : String} (h : Midway db done names now) (hd : uuid ∉ done)
    (hn : d.name ∉ names) :
    syncDevice env now d uuid =
      if refused env db done d uuid then none
      else some { now with rows := now.rows.set uuid (writtenRow env db d uuid) } := by
  have hname := nameTaken_eq_nameHeld h uuid hn
  have hold := h.old uuid hd
  rw [syncDevice, getByUuid, hold, refused]
  by_cases hf : env.fails uuid = true
  · simp only [hf, if_true, Bool.true_or]
  simp only [Bool.not_eq_true] at hf
  cases hg : db.rows.get? uuid with
  | some row =>
    have hk : uuid ∈ db.rows.keys := by
      by_contra hk
      rw [(get?_none_iff _ _).mpr hk] at hg
      cases hg
    simp only [hf, hk, Bool.false_eq_true, if_false, not_true_eq_false, decide_false,
      Bool.false_and, Bool.false_or, writtenRow, hg]
    rw [updateByUuid, hold, hg]
    simp only [normalizeDevice, Option.any_some, hname]
  | none =>
    have hk : uuid ∉ db.rows.keys := (get?_none_iff _ _).mp hg
    have hk' : uuid ∉ now.rows.keys := (get?_none_iff _ _).mp (hold.trans hg)
    simp only [hf, hk, Bool.false_eq_true, if_false, not_false_eq_true, decide_true,
      Bool.true_and, Bool.false_or, writtenRow, hg]
    rw [create]
    cases hc : d.connection with
    | none => simp [normalizeDevice, hc]
    | some connection => simp [normalizeDevice, hc, hk', hname]

theorem name_writtenRow (env : Surroundings J) (db : Db J) (d : Target J) (uuid : String) :
    (writtenRow env db d uuid).name = d.name := by
  rw [writtenRow]
  split <;> rfl

theorem Midway.set {db now : Db J} {done names : List String} (h : Midway db done names now)
    (env : Surroundings J) (d : Target J) (uuid : String) :
    Midway db (uuid::done) (d.name::names)
      { now with rows := now.rows.set uuid (writtenRow env db d uuid) } where
  missing := h.missing
  old k hk := by
    rw [List.mem_cons, not_or] at hk
    rw [OrderedMap.get?_set, if_neg hk.1]
    exact h.old k hk.2
  named k hk row hg := by
    rw [OrderedMap.get?_set] at hg
    split at hg
    · cases hg
      rw [name_writtenRow]
      exact List.mem_cons_self
    · next hne =>
      exact List.mem_cons_of_mem _ (h.named k ((List.mem_cons.mp hk).resolve_left hne) row hg)

theorem written_subset (env : Surroundings J) (db : Db J) (done : List String)
    (devices : List (Target J)) (p : Target J × String) (h : p ∈ written env db done devices) :
    p ∈ targetDevices env devices := by
  induction devices generalizing done with
  | nil => cases h
  | cons d ds ih =>
    rw [written] at h
    split at h
    · next hc =>
      obtain ⟨hm,hu⟩ := (mem_targetDevices env ds p.1 p.2).mp (ih done h)
      exact (mem_targetDevices env (d::ds) p.1 p.2).mpr ⟨List.mem_cons_of_mem _ hm,hu⟩
    · next uuid hc =>
      split at h
      · cases h
      · rcases List.mem_cons.mp h with rfl | h
        · exact (mem_targetDevices env (d::ds) d uuid).mpr ⟨List.mem_cons_self,hc⟩
        · obtain ⟨hm,hu⟩ := (mem_targetDevices env ds p.1 p.2).mp (ih _ h)
          exact (mem_targetDevices env (d::ds) p.1 p.2).mpr ⟨List.mem_cons_of_mem _ hm,hu⟩

theorem not_mem_written {env : Surroundings J} (db : Db J) (done : List String) {d : Target J}
    {ds : List (Target J)} {uuid : String} (hc : canonicalId env d = some uuid)
    (hid : ∀ d' ∈ ds, ∀ u, canonicalId env d = some u → canonicalId env d' ≠ some u) :
    uuid ∉ (written env db done ds).map Prod.snd := by
  intro hm
  obtain ⟨p,hp,hpu⟩ := List.mem_map.mp hm
  obtain ⟨hd',hc'⟩ := (mem_targetDevices env ds p.1 p.2).mp (written_subset _ _ _ _ _ hp)
  exact hid p.1 hd' uuid hc (hpu ▸ hc')

theorem get?_syncDevices {env : Surroundings J} {db now : Db J} {done names : List String}
    (devices : List (Target J)) (h : Midway db done names now) (hids : IdsDistinct env devices)
    (hdone : ∀ d ∈ devices, ∀ uuid ∈ done, canonicalId env d ≠ some uuid)
    (hdistinct : devices.Pairwise (fun a b => a.name ≠ b.name))
    (hnames : ∀ d ∈ devices, d.name ∉ names) :
    (∀ d uuid, (d,uuid) ∈ written env db done devices →
      (syncDevices env now devices).rows.get? uuid = some (writtenRow env db d uuid)) ∧
    (∀ uuid, uuid ∉ (written env db done devices).map Prod.snd →
      (syncDevices env now devices).rows.get? uuid = now.rows.get? uuid) := by
  induction devices generalizing done names now with
  | nil => exact ⟨fun _ _ hw => absurd hw List.not_mem_nil,fun _ _ => rfl⟩
  | cons d ds ih =>
    obtain ⟨hid,hids⟩ := List.pairwise_cons.mp hids
    obtain ⟨hne,hdistinct⟩ := List.pairwise_cons.mp hdistinct
    rw [syncDevices, written]
    cases hc : canonicalId env d with
    | none =>
      exact ih h hids (fun d' hd' => hdone d' (List.mem_cons_of_mem _ hd')) hdistinct
        (fun d' hd' => hnames d' (List.mem_cons_of_mem _ hd'))
    | some uuid =>
      have hd : uuid ∉ done := fun hd => hdone d List.mem_cons_self uuid hd hc
      simp only [syncDevice_eq h hd (hnames d List.mem_cons_self)]
      by_cases hr : refused env db done d uuid = true
      · rw [if_pos hr, if_pos hr]
        exact ⟨fun _ _ hw => absurd hw List.not_mem_nil,fun _ _ => rfl⟩
      rw [if_neg hr, if_neg hr]
      obtain ⟨h1,h2⟩ := ih (h.set env d uuid) hids
        (fun d' hd' u hu hc' => by
          rcases List.mem_cons.mp hu with rfl | hu
          · exact hid d' hd' u hc hc'
          · exact hdone d' (List.mem_cons_of_mem _ hd') u hu hc')
        hdistinct
        (fun d' hd' hm => by
          rcases List.mem_cons.mp hm with hm | hm
          · exact hne d' hd' hm.symm
          · exact hnames d' (List.mem_cons_of_mem _ hd') hm)
      have hfresh := not_mem_written db (uuid::done) hc hid
      constructor
      · intro d' u hw
        rcases List.mem_cons.mp hw with he | hw
        · cases he
          rw [h2 uuid hfresh, OrderedMap.get?_set, if_pos rfl]
        · exact h1 d' u hw
      · intro u hu
        rw [List.map_cons, List.mem_cons, not_or] at hu
        rw [h2 u hu.2, OrderedMap.get?_set, if_neg hu.1]

theorem get?_syncDevicesToDatabase (env : Surroundings J) (db : Db J) (devices : List (Target J))
    (hids : IdsDistinct env devices) (hdistinct : (devices.map Target.name).Nodup) :
    (∀ d uuid, (d,uuid) ∈ written env db [] devices →
      (syncDevicesToDatabase env db devices).rows.get? uuid = some (writtenRow env db d uuid)) ∧
    (∀ uuid, uuid ∉ (written env db [] devices).map Prod.snd →
      (syncDevicesToDatabase env db devices).rows.get? uuid = db.rows.get? uuid) := by
  rw [syncDevicesToDatabase]
  split
  · next h0 =>
    subst h0
    exact ⟨fun _ _ hw => absurd hw List.not_mem_nil,fun _ _ => rfl⟩
  · have hmid : Midway db [] [] (deleteMissingUuid db) :=
      ⟨rfl,fun _ _ => rfl,fun _ hk => absurd hk List.not_mem_nil⟩
    exact get?_syncDevices devices hmid hids (fun _ _ _ hu => absurd hu List.not_mem_nil)
      (List.pairwise_map.mp hdistinct) (fun _ _ => List.not_mem_nil)

theorem get?_synced_unwritten {env : Surroundings J} {db : Db J} {devices : List (Target J)}
    (hids : IdsDistinct env devices) (hdistinct : (devices.map Target.name).Nodup) {d : Target J}
    {uuid : String} (hm : (d,uuid) ∈ targetDevices env devices)
    (hw : (d,uuid) ∉ written env db [] devices) :
    (syncDevicesToDatabase env db devices).rows.get? uuid = db.rows.get? uuid := by
  apply (get?_syncDevicesToDatabase env db devices hids hdistinct).2
  intro hmap
  obtain ⟨t,ht,rfl⟩ := List.mem_map.mp hmap
  have he : t.1 = d := eq_of_targetDevices hids (written_subset _ _ _ _ _ ht) hm
  exact hw (he ▸ ht)

theorem executeSteps_append (env : Surroundings J) (db : Db J) (a b : List (Step J)) :
    executeSteps env db (a++b) = executeSteps env (executeSteps env db a) b :=
  List.foldl_append

def Spares (env : Surroundings J) (uuid : String) : Step J → Prop
  | .registerDevice d _ => env.randomUUID d ≠ uuid
  | .unregisterDevice _ => True
  | .updateDevice _ id => id ≠ uuid

theorem get?_updateEndpoint_ne {env : Surroundings J} {db db' : Db J} {d : Target J}
    {id uuid : String} (h : updateEndpoint env db d id = some db') (hne : uuid ≠ id) :
    db'.rows.get? uuid = db.rows.get? uuid := by
  rw [updateEndpoint] at h
  split at h
  · cases h
  · split at h
    · next existing hg =>
      rw [updateByUuid_unnamed rfl hg] at h
      cases h
      rw [OrderedMap.get?_set, if_neg hne]
    · obtain ⟨connection,_,rfl⟩ := create_eq_some h
      rw [OrderedMap.get?_set, if_neg hne]

theorem get?_executeStep_none {env : Surroundings J} {db : Db J} {uuid : String} (st : Step J)
    (h : Spares env uuid st) (hg : db.rows.get? uuid = none) :
    ((executeStep env db st).getD db).rows.get? uuid = none := by
  cases hs : executeStep env db st with
  | none => exact hg
  | some db' =>
    rw [Option.getD_some]
    cases st with
    | registerDevice d id =>
      rw [executeStep, registerEndpoint] at hs
      split at hs
      · cases hs
      · exact get?_upsert_none hs (Ne.symm h) hg
    | unregisterDevice id =>
      cases hs
      rw [deleteByUuid, OrderedMap.get?_delete, hg, ite_self]
    | updateDevice d id =>
      rw [get?_updateEndpoint_ne hs (Ne.symm h)]
      exact hg

theorem get?_executeSteps_none {env : Surroundings J} {uuid : String} (steps : List (Step J))
    (h : ∀ st ∈ steps, Spares env uuid st) (db : Db J) (hg : db.rows.get? uuid = none) :
    (executeSteps env db steps).rows.get? uuid = none := by
  induction steps generalizing db with
  | nil => exact hg
  | cons st steps ih =>
    exact ih (fun st' hst => h st' (List.mem_cons_of_mem _ hst)) _
      (get?_executeStep_none st (h st List.mem_cons_self) hg)

theorem executeSteps_registrations (env : Surroundings J) (db : Db J)
    (targets : List (Target J × String)) (h : ∀ t ∈ targets, env.fails t.2 = true) :
    executeSteps env db (targets.map (fun t => .registerDevice t.1 t.2)) = db := by
  induction targets with
  | nil => rfl
  | cons t targets ih =>
    have hstep : executeStep env db (.registerDevice t.1 t.2) = none :=
      if_pos (h t List.mem_cons_self)
    show executeSteps env ((executeStep env db (.registerDevice t.1 t.2)).getD db) _ = db
    rw [hstep]
    exact ih (fun t' ht => h t' (List.mem_cons_of_mem _ ht))

theorem get?_unregistrations (env : Surroundings J) (db : Db J) (ids : List String) (uuid : String) :
    (executeSteps env db (ids.map .unregisterDevice)).rows.get? uuid =
      if uuid ∈ ids then none else db.rows.get? uuid := by
  induction ids generalizing db with
  | nil => rfl
  | cons id ids ih =>
    show (executeSteps env (deleteByUuid db id) _).rows.get? uuid = _
    rw [ih, deleteByUuid, OrderedMap.get?_delete]
    by_cases h1 : uuid ∈ ids
    · rw [if_pos h1, if_pos (List.mem_cons_of_mem _ h1)]
    · by_cases h2 : uuid = id
      · rw [if_neg h1, if_pos h2, if_pos (h2 ▸ List.mem_cons_self)]
      · rw [if_neg h1, if_neg h2, if_neg (fun h => (List.mem_cons.mp h).elim h2 h1)]

def updatedRow (env : Surroundings J) (d : Target J) (row : Row J) : Row J :=
  (adapterUpdates env d false (preserved row (some (adapterPoints d)))).apply row

theorem executeStep_updateDevice {env : Surroundings J} {db : Db J} {d : Target J} {id : String}
    {row : Row J} (hf : env.fails id = false) (hg : db.rows.get? id = some row) :
    executeStep env db (.updateDevice d id) =
      some { db with rows := db.rows.set id (updatedRow env d row) } := by
  rw [executeStep, updateEndpoint, hf, getByUuid, hg]
  exact updateByUuid_unnamed rfl hg

theorem get?_executeStep_updateDevice_ne (env : Surroundings J) (db : Db J) (d : Target J)
    {id uuid : String} (hne : uuid ≠ id) :
    ((executeStep env db (.updateDevice d id)).getD db).rows.get? uuid = db.rows.get? uuid := by
  cases hs : executeStep env db (.updateDevice d id) with
  | none => rfl
  | some db' => exact get?_updateEndpoint_ne hs hne

theorem get?_updates_ne (env : Surroundings J) (targets : List (Target J × String)) (db : Db J)
    (uuid : String) (h : uuid ∉ targets.map Prod.snd) :
    (executeSteps env db (targets.map (fun t => .updateDevice t.1 t.2))).rows.get? uuid =
      db.rows.get? uuid := by
  induction targets generalizing db with
  | nil => rfl
  | cons t targets ih =>
    rw [List.map_cons, List.mem_cons, not_or] at h
    exact (ih _ h.2).trans (get?_executeStep_updateDevice_ne env db t.1 h.1)

theorem get?_updates (env : Surroundings J) (targets : List (Target J × String)) (db : Db J)
    (hn : (targets.map Prod.snd).Nodup) {d : Target J} {uuid : String} {row : Row J}
    (hm : (d,uuid) ∈ targets) (hf : env.fails uuid = false) (hg : db.rows.get? uuid = some row) :
    (executeSteps env db (targets.map (fun t => .updateDevice t.1 t.2))).rows.get? uuid =
      some (updatedRow env d row) := by
  induction targets generalizing db with
  | nil => cases hm
  | cons t targets ih =>
    obtain ⟨hout,hn⟩ := List.nodup_cons.mp hn
    rcases List.mem_cons.mp hm with rfl | hm
    · refine (get?_updates_ne env targets _ uuid hout).trans ?_
      show ((executeStep env db (.updateDevice d uuid)).getD db).rows.get? uuid = _
      rw [executeStep_updateDevice hf hg, Option.getD_some, OrderedMap.get?_set, if_pos rfl]
    · have hne : uuid ≠ t.2 := by
        intro he
        exact hout (he ▸ List.mem_map_of_mem hm)
      exact ih _ hn hm ((get?_executeStep_updateDevice_ne env db t.1 hne).trans hg)

end Iotistica.Endpoints
