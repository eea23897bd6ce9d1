import Iotistica.DictionaryCloud
import Iotistica.GuardedRun

/-!
# The cached dictionary and its rows

The map served from Redis is compared with the one PostgreSQL would give
after a loss of Redis. On the migrated schema it gives none, so that the maps
stay equal only as long as nothing is stored. With the column that the
statements name, the two writers differ on a name that is there and on an
index that is taken: Redis overwrites by position, the table passes over the
name or refuses the statement. Then the maps stay equal through every state
of a run exactly when no event of it meets such a conflict.
-/

set_option autoImplicit false

namespace Iotistica.CloudDictionary
open Iotistica Iotistica.GuardedRun

def restartRedis (c : Cloud) : Cloud := { c with dict := none, version := none }

def served (c : Cloud) : Option (ℕ → Option String) := (getDictionary c).1.map OrderedMap.get?

def Coherent (c : Cloud) : Prop := served c = served (restartRedis c)

inductive CacheEvent where
  | store (fields : Fields) (version : ℕ)
  | delta (newFields : List String) (version : ℕ)
  | restart
  | read

def cacheStep (c : Cloud) : CacheEvent → Cloud
  | .store fields version => storeDictionary c fields version
  | .delta newFields version => (applyDelta c newFields version).1
  | .restart => restartRedis c
  | .read => (getDictionary c).2

/-- Each new field, in its turn, has its place already or takes a free
index under a new name. -/
def Fits (m : FieldMap) : ℕ → List String → Prop
  | _, [] => True
  | i, name::rest =>
    (m.get? i = some name ∨ (m.get? i = none ∧ name ∉ m.entries.map Prod.snd)) ∧
      Fits (m.set i name) (i+1) rest

instance Fits.decidable (m : FieldMap) (i : ℕ) (names : List String) :
    Decidable (Fits m i names) :=
  match names with
  | [] => .isTrue trivial
  | name::rest =>
    have := Fits.decidable (m.set i name) (i+1) rest
    inferInstanceAs (Decidable (_ ∧ _))

def NoConflict (c : Cloud) : CacheEvent → Prop
  | .store fields _ =>
    (fieldMap fields).entries ≠ [] ∧ ((fieldMap fields).entries.map Prod.snd).Nodup
  | .delta newFields version =>
    ∀ m ∈ (getDictionary c).1, violates (getDictionary c).2.version version = true ∨
      Fits m m.size newFields
  | .restart => True
  | .read => True

theorem Agree.name_mem_iff {m : FieldMap} {t : EntryRows} (h : Agree m t) (name : String) :
    name ∈ m.entries.map Prod.snd ↔ name ∈ t.keys := by
  constructor
  · intro hm
    obtain ⟨e,he,rfl⟩ := List.mem_map.mp hm
    obtain ⟨r,hr,-,hname⟩ := (h e.1 e.2).mp (OrderedMap.get?_of_mem he)
    rw [← hname]
    exact UniqueTable.mem_keys hr
  · intro hm
    obtain ⟨r,hr,rfl⟩ := List.mem_map.mp hm
    have hg := (h r.fieldIndex r.fieldName).mpr ⟨r,hr,rfl,rfl⟩
    exact List.mem_map.mpr ⟨_,(OrderedMap.get?_eq_some_iff _ _ _).mp hg,rfl⟩

theorem Agree.get?_none_iff {m : FieldMap} {t : EntryRows} (h : Agree m t) (i : ℕ) :
    m.get? i = none ↔ i ∉ t.slots := by
  rw [Option.eq_none_iff_forall_ne_some]
  constructor
  · intro hn hm
    obtain ⟨r,hr,rfl⟩ := List.mem_map.mp hm
    exact hn r.fieldName ((h r.fieldIndex r.fieldName).mpr ⟨r,hr,rfl,rfl⟩)
  · intro hn name hg
    obtain ⟨r,hr,rfl,-⟩ := (h i name).mp hg
    exact hn (UniqueTable.mem_slots hr)

theorem Agree.set_same {m : FieldMap} {t : EntryRows} (h : Agree m t) {i : ℕ} {name : String}
    (hg : m.get? i = some name) : Agree (m.set i name) t := by
  intro j n
  rw [OrderedMap.get?_set]
  by_cases hj : j = i
  · rw [if_pos hj, hj, ← hg]
    exact h i n
  · rw [if_neg hj]
    exact h j n

theorem Agree.set_insert {m : FieldMap} {t t' : EntryRows} (h : Agree m t) {r : EntryRow}
    (hfree : m.get? r.fieldIndex = none) (hins : t.insert r = some t') :
    Agree (m.set r.fieldIndex r.fieldName) t' := by
  intro j n
  rw [OrderedMap.get?_set, UniqueTable.rows_of_insert hins]
  simp only [List.mem_append, List.mem_singleton]
  by_cases hj : j = r.fieldIndex
  · rw [if_pos hj, hj, Option.some.injEq]
    constructor
    · intro hn
      exact ⟨r,Or.inr rfl,rfl,hn⟩
    · rintro ⟨q,hq | rfl,hqi,hqn⟩
      · have hne := (Agree.get?_none_iff h _).mp hfree
        exact absurd (hqi ▸ UniqueTable.mem_slots hq) hne
      · exact hqn
  · rw [if_neg hj, h j n]
    constructor
    · rintro ⟨q,hq,hqi⟩
      exact ⟨q,Or.inl hq,hqi⟩
    · rintro ⟨q,hq | rfl,hqi,hqn⟩
      · exact ⟨q,hq,hqi,hqn⟩
      · exact absurd hqi.symm hj

theorem get?_appendFields_before (m : FieldMap) (i : ℕ) (names : List String) {j : ℕ} (hj : j < i) :
    (appendFields m i names).get? j = m.get? j := by
  induction names generalizing m i with
  | nil => rfl
  | cons name rest ih =>
    show (appendFields (m.set i name) (i+1) rest).get? j = _
    rw [ih _ _ (by omega), OrderedMap.get?_set, if_neg (by omega)]

theorem get?_appendFields_head (m : FieldMap) (i : ℕ) (name : String) (rest : List String) :
    (appendFields m i (name::rest)).get? i = some name := by
  show (appendFields (m.set i name) (i+1) rest).get? i = _
  rw [get?_appendFields_before _ _ _ (by omega), OrderedMap.get?_set, if_pos rfl]

theorem agree_of_fits (version : ℕ) (names : List String) (m : FieldMap) (t : EntryRows) (i : ℕ)
    (h : Agree m t) (hf : Fits m i names) :
    ∃ t', t.insertNewAll (deltaRows version i names) = some t' ∧
      Agree (appendFields m i names) t' := by
  induction names generalizing m t i with
  | nil => exact ⟨t,rfl,h⟩
  | cons name rest ih =>
    obtain ⟨hhead,htail⟩ := hf
    rcases hhead with hthere | ⟨hfree,hnew⟩
    · obtain ⟨r,hr,-,hname⟩ := (h i name).mp hthere
      have hkey : name ∈ t.keys := hname ▸ UniqueTable.mem_keys hr
      have hskip : t.insertNew ⟨name,i,version⟩ = some t := if_pos hkey
      obtain ⟨t',ht',ha⟩ := ih _ t (i+1) (h.set_same hthere) htail
      refine ⟨t',?_,ha⟩
      show (t.insertNew ⟨name,i,version⟩).bind _ = _
      rw [hskip]
      exact ht'
    · have hkey : name ∉ t.keys := fun hm => hnew ((h.name_mem_iff name).mpr hm)
      have hslot : i ∉ t.slots := (h.get?_none_iff i).mp hfree
      obtain ⟨t₁,h₁⟩ := UniqueTable.insert_isSome (t := t) (a := ⟨name,i,version⟩) hkey hslot
      have hins : t.insertNew ⟨name,i,version⟩ = some t₁ := (if_neg hkey).trans h₁
      obtain ⟨t',ht',ha⟩ :=
        ih _ t₁ (i+1) (h.set_insert (r := ⟨name,i,version⟩) hfree h₁) htail
      refine ⟨t',?_,ha⟩
      show (t.insertNew ⟨name,i,version⟩).bind _ = _
      rw [hins]
      exact ht'

/-- The other way round: after a conflict the index of the first field that
does not fit tells the two stores apart, whether the statement failed and
left the rows `t₀` it started from or passed over the name. -/
theorem fits_of_agree (version : ℕ) (names : List String) (m : FieldMap) (t t₀ : EntryRows) (i : ℕ)
    (h : Agree m t) (hsub : t₀.rows ⊆ t.rows)
    (ha : Agree (appendFields m i names)
      ((t.insertNewAll (deltaRows version i names)).getD t₀)) : Fits m i names := by
  induction names generalizing m t i with
  | nil => trivial
  | cons name rest ih =>
    obtain ⟨r,hr,hri,hrn⟩ := (ha i name).mp (get?_appendFields_head m i name rest)
    have hrows : t.insertNewAll (deltaRows version i (name::rest)) =
        (t.insertNew ⟨name,i,version⟩).bind
          (fun t' => t'.insertNewAll (deltaRows version (i+1) rest)) := rfl
    rw [hrows] at ha hr
    by_cases hkey : name ∈ t.keys
    · have hskip : t.insertNew ⟨name,i,version⟩ = some t := if_pos hkey
      rw [hskip, Option.bind_some] at ha hr
      have hin : r ∈ t.rows := by
        cases hrun : t.insertNewAll (deltaRows version (i+1) rest) with
        | none =>
          rw [hrun] at hr
          exact hsub hr
        | some t' =>
          rw [hrun] at hr
          obtain ⟨q,hq,hqn⟩ := List.mem_map.mp hkey
          have hq' := UniqueTable.subset_of_insertNewAll hrun hq
          have heq : q = r := UniqueTable.eq_of_key hq' hr (hqn.trans hrn.symm)
          exact heq ▸ hq
      have hthere : m.get? i = some name := (h i name).mpr ⟨r,hin,hri,hrn⟩
      exact ⟨Or.inl hthere,ih _ t (i+1) (h.set_same hthere) hsub ha⟩
    · have hins : t.insertNew ⟨name,i,version⟩ = t.insert ⟨name,i,version⟩ := if_neg hkey
      rw [hins] at ha hr
      have hslot : i ∉ t.slots := by
        intro hm
        have hnone : t.insert ⟨name,i,version⟩ = none := UniqueTable.insert_none hm
        rw [hnone] at hr
        exact hkey (hrn ▸ UniqueTable.mem_keys (hsub hr))
      obtain ⟨t₁,h₁⟩ := UniqueTable.insert_isSome (t := t) (a := ⟨name,i,version⟩) hkey hslot
      rw [h₁, Option.bind_some] at ha
      have hfree : m.get? i = none := (h.get?_none_iff i).mpr hslot
      have hnew : name ∉ m.entries.map Prod.snd := fun hm => hkey ((h.name_mem_iff name).mp hm)
      have hsub₁ : t₀.rows ⊆ t₁.rows := by
        rw [UniqueTable.rows_of_insert h₁]
        exact fun _ hx => List.mem_append_left _ (hsub hx)
      exact ⟨Or.inr ⟨hfree,hnew⟩,
        ih _ t₁ (i+1) (h.set_insert (r := ⟨name,i,version⟩) hfree h₁) hsub₁ ha⟩

theorem served_restart {c : Cloud} (hu : c.schema.Usable) :
    served (restartRedis c) =
      if c.entries.rows = [] then none else some (loadDictionary c.entries).get? := by
  unfold served
  rw [getDictionary_usable (c := restartRedis c) hu]
  unfold restartRedis
  have hsize := size_loadDictionary c.entries
  by_cases hr : c.entries.rows = []
  · have hz : (loadDictionary c.entries).size = 0 := by rw [hsize, hr]; rfl
    simp [hr, hz]
  · have hz : (loadDictionary c.entries).size ≠ 0 := by
      rw [hsize]
      exact fun h => hr (List.length_eq_zero_iff.mp h)
    cases hm : c.metadata <;> simp [hr, hz]

theorem coherent_of_miss {c : Cloud} (h : c.dict = none) : Coherent c := by
  have hr : restartRedis c = { c with version := none } := by
    unfold restartRedis
    rw [← h]
  unfold Coherent served getDictionary
  rw [hr]
  simp only [h]
  split_ifs
  · rfl
  · rfl
  · rfl
  · cases c.metadata <;> rfl

theorem coherent_iff_of_hit {c : Cloud} (hu : c.schema.Usable) {m : FieldMap}
    (h : c.dict = some m) :
    Coherent c ↔ c.entries.rows ≠ [] ∧ Agree m c.entries := by
  have hs : served c = some m.get? := by
    unfold served getDictionary
    rw [h]
    rfl
  unfold Coherent
  rw [hs, served_restart hu]
  by_cases hr : c.entries.rows = []
  · simp [hr]
  · simp only [hr, if_false, Option.some.injEq, not_false_eq_true, true_and, ne_eq]
    constructor
    · intro he i name
      rw [he]
      exact agree_loadDictionary c.entries i name
    · intro ha
      exact ha.get?_eq (agree_loadDictionary c.entries)

theorem getDictionary_agree {c : Cloud} (hu : c.schema.Usable) (h : Coherent c) {m : FieldMap}
    (hg : (getDictionary c).1 = some m) : c.entries.rows ≠ [] ∧ Agree m c.entries := by
  cases hd : c.dict with
  | some m' =>
    have hm : m' = m := by
      unfold getDictionary at hg
      rw [hd] at hg
      exact Option.some.inj hg
    exact hm ▸ (coherent_iff_of_hit hu hd).mp h
  | none =>
    rw [getDictionary_usable hu] at hg
    simp only [hd] at hg
    by_cases hz : (loadDictionary c.entries).size = 0
    · simp [hz] at hg
    · have hm : loadDictionary c.entries = m := by
        cases hmeta : c.metadata <;> simpa [hz, hmeta] using hg
      refine ⟨?_,hm ▸ agree_loadDictionary c.entries⟩
      intro hr
      rw [size_loadDictionary, hr] at hz
      exact hz rfl

theorem entries_getDictionary (c : Cloud) : (getDictionary c).2.entries = c.entries := by
  unfold getDictionary
  cases c.dict with
  | some m => rfl
  | none =>
    dsimp only
    split_ifs
    · rfl
    · rfl
    · rfl
    · cases c.metadata <;> rfl

theorem getDictionary_coherent {c : Cloud} (hu : c.schema.Usable) (h : Coherent c) :
    Coherent (getDictionary c).2 := by
  cases hd : (getDictionary c).2.dict with
  | none => exact coherent_of_miss hd
  | some m =>
    have hm : (getDictionary c).1 = some m := by
      rw [getDictionary_usable hu] at hd ⊢
      cases hc : c.dict with
      | some m' => simpa [hc] using hd
      | none =>
        simp only [hc] at hd ⊢
        by_cases hz : (loadDictionary c.entries).size = 0
        · simp [hz, hc] at hd
        · cases hmeta : c.metadata with
          | none => simp [hz, hmeta, hc] at hd
          | some v => simpa [hz, hmeta] using hd
    have hwarm : (getDictionary c).2.schema.Usable := getDictionary_schema c ▸ hu
    rw [coherent_iff_of_hit hwarm hd, entries_getDictionary]
    exact getDictionary_agree hu h hm

theorem storeDictionary_coherent_iff {c : Cloud} (hu : c.schema.Usable) (fields : Fields)
    (version : ℕ) : Coherent (storeDictionary c fields version) ↔ NoConflict c (.store fields version) := by
  show _ ↔ (fieldMap fields).entries ≠ [] ∧ ((fieldMap fields).entries.map Prod.snd).Nodup
  have hrow : ∀ m : FieldMap, (entryRows m version).map EntryRow.fieldName = m.entries.map Prod.snd := by
    intro m
    simp [entryRows, Function.comp_def]
  unfold storeDictionary
  rw [storeEntries_usable (by exact hu)]
  cases hins : (UniqueTable.empty : EntryRows).insertAll (entryRows (fieldMap fields) version) with
  | none =>
    rw [coherent_iff_of_hit (by exact hu) rfl]
    constructor
    · intro h
      exact absurd rfl h.1
    · rintro ⟨-,hn⟩
      exfalso
      have hslot : ((entryRows (fieldMap fields) version).map EntryRow.fieldIndex).Nodup := by
        have he : (entryRows (fieldMap fields) version).map EntryRow.fieldIndex =
            (fieldMap fields).entries.map Prod.fst := by simp [entryRows, Function.comp_def]
        rw [he]
        exact (fieldMap fields).nodup
      obtain ⟨t,ht,-⟩ := UniqueTable.rows_insertAll (UniqueTable.empty : EntryRows)
        (entryRows (fieldMap fields) version) (by simpa [hrow] using hn) (by simpa using hslot)
      rw [hins] at ht
      cases ht
  | some t =>
    rw [coherent_iff_of_hit (by exact hu) rfl]
    have hrows : t.rows = entryRows (fieldMap fields) version := by
      simpa using UniqueTable.rows_of_insertAll hins
    constructor
    · rintro ⟨hne,-⟩
      refine ⟨fun he => hne ?_,?_⟩
      · simp [hrows, entryRows, he]
      · rw [← hrow, ← hrows]
        exact t.keys_nodup
    · rintro ⟨hne,-⟩
      refine ⟨fun he => hne ?_,fun i name => ?_⟩
      · simpa [hrows, entryRows] using he
      · rw [OrderedMap.get?_eq_some_iff, hrows]
        simp [entryRows]

theorem applyDelta_coherent_iff {c : Cloud} (hu : c.schema.Usable) (newFields : List String)
    (version : ℕ) (h : Coherent c) :
    Coherent (applyDelta c newFields version).1 ↔ NoConflict c (.delta newFields version) := by
  have hwarm := getDictionary_coherent hu h
  have hent := entries_getDictionary c
  have hag := fun m => getDictionary_agree (m := m) hu h
  have huse : (getDictionary c).2.schema.Usable := getDictionary_schema c ▸ hu
  unfold applyDelta NoConflict
  generalize getDictionary c = g at hwarm hent hag huse ⊢
  obtain ⟨dict,c₁⟩ := g
  cases dict with
  | none => simpa using hwarm
  | some m =>
    obtain ⟨hne,ha⟩ := hag m rfl
    rw [← hent] at hne ha
    by_cases hv : violates c₁.version version = true
    · simp [hv, hwarm]
    · have hgoal : (∀ m' ∈ some m, violates c₁.version version = true ∨
          Fits m' m'.size newFields) ↔ Fits m m.size newFields := by simp [hv]
      simp only [hv, Bool.false_eq_true, if_false] at hgoal ⊢
      rw [hgoal]
      rw [addDeltaFields_usable (by exact huse)]
      constructor
      · intro hc
        apply fits_of_agree version newFields m c₁.entries c₁.entries m.size ha (fun _ hx => hx)
        cases hrun : c₁.entries.insertNewAll (deltaRows version m.size newFields) with
        | none =>
          simp only [hrun] at hc
          exact ((coherent_iff_of_hit (by exact huse) rfl).mp hc).2
        | some t =>
          simp only [hrun] at hc
          exact ((coherent_iff_of_hit (by exact huse) rfl).mp hc).2
      · intro hf
        obtain ⟨t,ht,hat⟩ := agree_of_fits version newFields m c₁.entries m.size ha hf
        simp only [ht]
        refine (coherent_iff_of_hit (by exact huse) rfl).mpr ⟨fun he => hne ?_,hat⟩
        have hsub := UniqueTable.subset_of_insertNewAll ht
        exact List.eq_nil_of_subset_nil (he ▸ hsub)

theorem cacheStep_coherent_iff {c : Cloud} (hu : c.schema.Usable) (e : CacheEvent)
    (h : Coherent c) : Coherent (cacheStep c e) ↔ NoConflict c e := by
  cases e with
  | store fields version => exact storeDictionary_coherent_iff hu fields version
  | delta newFields version => exact applyDelta_coherent_iff hu newFields version h
  | restart => exact ⟨fun _ => trivial,fun _ => coherent_of_miss rfl⟩
  | read => exact ⟨fun _ => trivial,fun _ => getDictionary_coherent hu h⟩

theorem cacheStep_schema (c : Cloud) (e : CacheEvent) : (cacheStep c e).schema = c.schema := by
  cases e with
  | store fields version => exact (storeEntries_others _ _ _).2.2
  | delta newFields version => exact applyDelta_schema c newFields version
  | restart => rfl
  | read => exact getDictionary_schema c

theorem not_coherent_of_unusable {c : Cloud} (hu : ¬c.schema.Usable) {m : FieldMap}
    (h : c.dict = some m) : ¬Coherent c := by
  have hlost : getDictionary (restartRedis c) = (none,restartRedis c) :=
    getDictionary_unusable (c := restartRedis c) hu
  unfold Coherent served
  rw [getDictionary_unusable hu, hlost, h]
  exact Option.some_ne_none _

/-- Without its columns the database has no dictionary, and Redis gets one
from a full sync only. -/
theorem cacheStep_unusable_iff {c : Cloud} (hu : ¬c.schema.Usable) (e : CacheEvent)
    (h : Coherent c) :
    Coherent (cacheStep c e) ↔ ∀ fields version, e ≠ .store fields version := by
  have hmiss : c.dict = none := by
    cases hd : c.dict with
    | none => rfl
    | some m => exact absurd h (not_coherent_of_unusable hu hd)
  have hread : getDictionary c = (none,c) := by rw [getDictionary_unusable hu, hmiss]
  cases e with
  | store fields version =>
    have hschema : (storeDictionary c fields version).schema = c.schema :=
      cacheStep_schema c (.store fields version)
    refine iff_of_false ?_ (fun hne => hne fields version rfl)
    exact not_coherent_of_unusable (c := storeDictionary c fields version) (by rwa [hschema])
      (storeDictionary_redis c fields version).1
  | delta newFields version =>
    have hdelta : (applyDelta c newFields version).1 = c := by
      unfold applyDelta
      rw [hread]
    rw [cacheStep, hdelta]
    exact iff_of_true h nofun
  | restart => exact iff_of_true (coherent_of_miss rfl) nofun
  | read =>
    rw [cacheStep, hread]
    exact iff_of_true h nofun

theorem migrated_unusable : ¬migrated.Usable := fun h => absurd h.entries (by decide)

/-- Every state of a run serves from Redis what the rows would give after a
loss: on the migrated schema exactly when the run stores no dictionary; on one
with the columns that the statements name, exactly when no event of the run
meets a conflict. -/
theorem served_survives_restart_iff (es : List CacheEvent) :
    ((∀ pre, pre <+: es → Coherent (run cacheStep pre .fresh)) ↔
      ∀ fields version, .store fields version ∉ es) ∧
    ∀ schema : Schema, schema.Usable →
      ((∀ pre, pre <+: es → Coherent (run cacheStep pre (.created schema))) ↔
        Meets cacheStep NoConflict es (.created schema)) := by
  constructor
  · have hruns := always_iff_meets (I := fun c : Cloud => ¬c.schema.Usable)
      (fun c e h => by rwa [cacheStep_schema]) (fun c e hu h => cacheStep_unusable_iff hu e h)
      es .fresh migrated_unusable (coherent_of_miss rfl)
    rw [hruns, meets_iff_split]
    constructor
    · intro h fields version hmem
      obtain ⟨pre,post,hes⟩ := List.append_of_mem hmem
      exact h pre _ post hes fields version rfl
    · rintro h pre e post rfl fields version rfl
      exact h fields version (List.mem_append_right _ List.mem_cons_self)
  · intro schema hu
    exact always_iff_meets (I := fun c : Cloud => c.schema.Usable)
      (fun c e h => by rwa [cacheStep_schema]) (fun c e hu h => cacheStep_coherent_iff hu e h)
      es (.created schema) hu (coherent_of_miss rfl)

/-- A delta that names a field of the full sync gives it a second index in
Redis only. -/
example : ¬ Coherent (run cacheStep [.store (.names ["temperature"]) 1,.delta ["temperature"] 2]
    (.created ⟨agentColumn,agentColumn⟩)) := by
  intro h
  have hread := congrArg (fun f => f.map (fun get => get 1)) h
  revert hread
  decide

/-- One dictionary is stored: the statements fail, and a restart of Redis
loses it. -/
theorem stored_dictionary_lost :
    ¬ Coherent (run cacheStep [.store (.names ["temperature"]) 1] .fresh) := by
  intro h
  have hread := congrArg (fun f => f.map (fun get => get 0)) h
  revert hread
  decide

end Iotistica.CloudDictionary
