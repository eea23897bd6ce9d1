import Iotistica.TargetMerge

/-!
# The diff of two state reports

Apps are compared by their stable text after two fields of each service are
dropped, the configuration by its stable text, and every other field with
`!==`, which tells two objects apart whatever they hold. The reports lie in
one heap; an object of it is known by its address.
-/

set_option autoImplicit false

namespace Iotistica.StateDiff
open Iotistica Iotistica.JsonText Iotistica.JsonDoubles Iotistica.StableText
open Iotistica.TargetMerge (spread orEmpty)

inductive Slot where
  | undefined
  | null
  | bool (b : Bool)
  | num (d : Decimal)
  | str (s : String)
  | object (address : ℕ)
  deriving DecidableEq

def container : Value → Bool
  | .arr _ => true
  | .obj _ => true
  | _ => false

/-- Objects and arrays, of which no object has two members of one name. -/
structure Heap where
  read : ℕ → Value
  proper : ∀ address, Proper (read address)
  container : ∀ address, StateDiff.container (read address) = true

def Heap.value (heap : Heap) : Slot → Option Value
  | .undefined => none
  | .null => some .null
  | .bool b => some (.bool b)
  | .num d => some (.num d)
  | .str s => some (.str s)
  | .object address => some (heap.read address)

abbrev Device := OrderedMap String Slot
abbrev Report := OrderedMap String Device

/-- `const { a, b, ...rest } = service` with the names of `a` and `b`. -/
def without (names : List String) (service : Value) : Value :=
  .obj (collect ((spread service).filter (fun m => !names.contains m.1)))

def normalizeApp (names : List String) (app : Value) : Value :=
  match app, member app "services" with
  | .obj members, some (.arr services) =>
    .obj (OrderedMap.assign "services" (.arr (services.map (without names))) members)
  | app, _ => app

def normalizeApps (names : List String) (apps : Value) : Value :=
  .obj (collect ((spread apps).map (fun m => (m.1,normalizeApp names m.2))))

def isNull : Value → Bool
  | .null => true
  | _ => false

/-- Services that are truthy but no array have no `map`, and nothing can be
taken out of a service that is `null`. -/
def readableApp (app : Value) : Bool :=
  match member app "services" with
  | some (.arr services) => services.all (fun service => !isNull service)
  | some services => !truthy services
  | none => true

def readableApps (apps : Value) : Bool := (spread apps).all (fun m => readableApp m.2)

/-- The names under which `normalizeService` takes the runtime fields. -/
def takenNames : List String := ["_containerId","_status"]

/-- `none` if it throws. -/
def appsChanged (oldApps newApps : Value) : Option Bool :=
  if readableApps oldApps && readableApps newApps then
    some (decide (stableStringify (normalizeApps takenNames oldApps) ≠
      stableStringify (normalizeApps takenNames newApps)))
  else none

section Diff
variable (heap : Heap)

def fieldChanged (key : String) (oldValue newValue : Slot) : Option Bool :=
  if key = "apps" then
    appsChanged (orEmpty (heap.value oldValue)) (orEmpty (heap.value newValue))
  else if key = "config" then
    some (decide (stableStringify (orEmpty (heap.value oldValue)) ≠
      stableStringify (orEmpty (heap.value newValue))))
  else some (decide (oldValue ≠ newValue))

def fieldOf (device : Device) (key : String) : Slot := (device.get? key).getD .undefined

def deviceDiff (oldDevice : Device) : List (String × Slot) → Option (List (String × Slot))
  | [] => some []
  | (key,newValue)::rest =>
    (fieldChanged heap key (fieldOf oldDevice key) newValue).bind (fun changed =>
      (deviceDiff oldDevice rest).map (fun diff => if changed then (key,newValue)::diff else diff))

def deviceOf (report : Report) (uuid : String) : Device := (report.get? uuid).getD .empty

def reportDiff (oldState : Report) :
    List (String × Device) → Option (List (String × List (String × Slot)))
  | [] => some []
  | (uuid,newDevice)::rest =>
    (deviceDiff heap (deviceOf oldState uuid) newDevice.entries).bind (fun diff =>
      (reportDiff oldState rest).map (fun others =>
        if diff.isEmpty then others else (uuid,diff)::others))

def calculateStateDiff (oldState newState : Report) :
    Option (List (String × List (String × Slot))) :=
  reportDiff heap oldState newState.entries

/-- The runtime fields of a service. -/
def runtimeNames : List String := ["containerId","status"]

/-- Apps that differ in the order of members and in the named fields of their
services at most. -/
def AlikeWithout (names : List String) (apps apps' : Value) : Prop :=
  SameValue (normalizeApps names apps) (normalizeApps names apps')

def SameSlot (old new : Slot) : Prop :=
  match heap.value old, heap.value new with
  | none, none => True
  | some v, some w => SameValue v w
  | _, _ => False

def Changed (key : String) (old new : Slot) : Prop :=
  if key = "apps" then
    ¬AlikeWithout runtimeNames (orEmpty (heap.value old)) (orEmpty (heap.value new))
  else if key = "config" then
    ¬SameValue (orEmpty (heap.value old)) (orEmpty (heap.value new))
  else ¬SameSlot heap old new

def HasEntry (diff : List (String × List (String × Slot))) (uuid key : String) : Prop :=
  ∃ fields, (uuid,fields) ∈ diff ∧ key ∈ fields.map Prod.fst

/-- The diff is made, it holds nothing but fields of the new report, and of
these it holds the ones that changed. -/
def Exact (oldState newState : Report) : Prop :=
  ∃ diff, calculateStateDiff heap oldState newState = some diff ∧
    (∀ uuid fields, (uuid,fields) ∈ diff → fields ≠ [] ∧
      ∃ device, (uuid,device) ∈ newState.entries ∧ ∀ f ∈ fields, f ∈ device.entries) ∧
    ∀ uuid device, (uuid,device) ∈ newState.entries → ∀ key value, (key,value) ∈ device.entries →
      (HasEntry diff uuid key ↔
        Changed heap key (fieldOf (deviceOf oldState uuid) key) value)

/-- Apps whose services can be read and that are alike, or differ both in more
than the runtime fields and in more than the fields taken for them; a value
that is not held by two objects. -/
def Told (key : String) (old new : Slot) : Prop :=
  if key = "apps" then
    let oldApps := orEmpty (heap.value old)
    let newApps := orEmpty (heap.value new)
    (readableApps oldApps = true ∧ readableApps newApps = true) ∧
      (AlikeWithout [] oldApps newApps ∨
        (¬AlikeWithout runtimeNames oldApps newApps ∧ ¬AlikeWithout takenNames oldApps newApps))
  else if key = "config" then True
  else ∀ address address', old = .object address → new = .object address' →
    SameValue (heap.read address) (heap.read address') → address = address'

end Diff

theorem properMembers_spread {v : Value} (h : Proper v) : ProperMembers (spread v) := by
  cases v with
  | obj members =>
    rw [Proper] at h
    exact h.2
  | arr items =>
    rw [Proper, properItems_iff] at h
    rw [properMembers_iff]
    intro m hm
    obtain ⟨p,hp,rfl⟩ := List.mem_map.mp hm
    exact h p.1 (List.fst_mem_of_mem_zipIdx hp)
  | str s =>
    rw [properMembers_iff]
    intro m hm
    obtain ⟨p,hp,rfl⟩ := List.mem_map.mp hm
    trivial
  | null => trivial
  | bool b => trivial
  | num d => trivial

theorem proper_without (names : List String) {service : Value} (h : Proper service) :
    Proper (without names service) := by
  apply proper_collect
  have hspread := (properMembers_iff _).mp (properMembers_spread h)
  rw [properMembers_iff]
  exact fun m hm => hspread m (List.mem_filter.mp hm).1

def servicesOf (app : Value) : Option (List Value) :=
  match member app "services" with
  | some (.arr services) => some services
  | _ => none

theorem normalizeApp_of_none (names : List String) {app : Value} (h : servicesOf app = none) :
    normalizeApp names app = app := by
  unfold normalizeApp
  split
  · rename_i hmember
    simp [servicesOf, hmember] at h
  · rfl

theorem normalizeApp_of_some {app : Value} {services : List Value}
    (h : servicesOf app = some services) :
    ∃ members, app = .obj members ∧ members.lookup "services" = some (.arr services) ∧
      ∀ names, normalizeApp names app =
        .obj (OrderedMap.assign "services" (.arr (services.map (without names))) members) := by
  unfold servicesOf at h
  split at h
  · rename_i hmember
    obtain rfl := Option.some.inj h
    cases app with
    | obj members =>
      refine ⟨members,rfl,hmember,fun names => ?_⟩
      unfold normalizeApp
      rw [hmember]
    | _ => cases hmember
  · cases h

theorem servicesOf_normalizeApp (names : List String) (app : Value) :
    servicesOf (normalizeApp names app) =
      (servicesOf app).map (fun services => services.map (without names)) := by
  cases hservices : servicesOf app with
  | none =>
    rw [normalizeApp_of_none names hservices, hservices]
    rfl
  | some services =>
    obtain ⟨members,rfl,hlookup,hnormal⟩ := normalizeApp_of_some hservices
    rw [hnormal, servicesOf, member, OrderedMap.lookup_assign_self]
    · rfl
    · exact List.mem_map_of_mem (f := Prod.fst) (OrderedMap.mem_of_lookup members hlookup)

theorem proper_normalizeApp (names : List String) {app : Value} (h : Proper app) :
    Proper (normalizeApp names app) := by
  cases hservices : servicesOf app with
  | none =>
    rw [normalizeApp_of_none names hservices]
    exact h
  | some services =>
    obtain ⟨members,rfl,hlookup,hnormal⟩ := normalizeApp_of_some hservices
    rw [Proper] at h
    have hall := (properMembers_iff _).mp h.2
    have hheld := hall _ (OrderedMap.mem_of_lookup members hlookup)
    rw [Proper, properItems_iff] at hheld
    rw [hnormal, Proper, OrderedMap.map_fst_assign, properMembers_iff]
    refine ⟨h.1,?_⟩
    intro m hm
    obtain ⟨n,hn,rfl⟩ := List.mem_map.mp hm
    split
    · rw [Proper, properItems_iff]
      intro service hservice
      obtain ⟨held,hin,rfl⟩ := List.mem_map.mp hservice
      exact proper_without names (hheld held hin)
    · exact hall n hn

theorem proper_normalizeApps (names : List String) {apps : Value} (h : Proper apps) :
    Proper (normalizeApps names apps) := by
  apply proper_collect
  have hspread := (properMembers_iff _).mp (properMembers_spread h)
  rw [properMembers_iff]
  intro m hm
  obtain ⟨n,hn,rfl⟩ := List.mem_map.mp hm
  exact proper_normalizeApp names (hspread n hn)

theorem proper_orEmpty {v : Option Value} (h : ∀ w, v = some w → Proper w) :
    Proper (orEmpty v) := by
  unfold orEmpty
  split
  · split
    · exact h _ rfl
    · exact ⟨List.nodup_nil,trivial⟩
  · exact ⟨List.nodup_nil,trivial⟩

theorem proper_slot (heap : Heap) (slot : Slot) : Proper (orEmpty (heap.value slot)) := by
  apply proper_orEmpty
  intro w hw
  cases slot with
  | undefined => cases hw
  | object address =>
    obtain rfl := Option.some.inj hw
    exact heap.proper address
  | _ =>
    obtain rfl := Option.some.inj hw
    trivial

/-- What `...` takes under a name. -/
def taken (v : Value) (key : String) : Option Value := (spread v).reverse.lookup key

theorem lookup_collect (members : Members) (key : String) :
    (collect members).lookup key = members.reverse.lookup key := by
  have h := OrderedMap.get?_assignAll_last OrderedMap.empty members key
  rwa [show (OrderedMap.empty : OrderedMap String Value).get? key = none from rfl,
    Option.or_none] at h

theorem canonical_collect_iff (ms ns : Members) :
    canonical (.obj (collect ms)) = canonical (.obj (collect ns)) ↔
      ∀ key, (ms.reverse.lookup key).map canonical = (ns.reverse.lookup key).map canonical := by
  have h := canonical_obj_eq_iff (OrderedMap.empty.assignAll ms).nodup
    (OrderedMap.empty.assignAll ns).nodup
  refine h.trans (forall_congr' fun key => ?_)
  rw [← lookup_collect, ← lookup_collect]
  rfl

theorem canonical_without_iff (names : List String) (service service' : Value) :
    canonical (without names service) = canonical (without names service') ↔
      ∀ key, key ∉ names →
        (taken service key).map canonical = (taken service' key).map canonical := by
  have hlookup : ∀ (v : Value) (key : String),
      ((spread v).filter (fun m => !names.contains m.1)).reverse.lookup key =
        if key ∈ names then none else taken v key := by
    intro v key
    rw [← List.filter_reverse, OrderedMap.lookup_filter_fst (fun name => !names.contains name)]
    by_cases h : key ∈ names <;> simp [h, taken]
  refine (canonical_collect_iff _ _).trans (forall_congr' fun key => ?_)
  rw [hlookup, hlookup]
  by_cases h : key ∈ names <;> simp [h]

theorem canonical_normalizeApps_iff (names : List String) (apps apps' : Value) :
    canonical (normalizeApps names apps) = canonical (normalizeApps names apps') ↔
      ∀ key, (taken apps key).map (fun app => canonical (normalizeApp names app)) =
        (taken apps' key).map (fun app => canonical (normalizeApp names app)) := by
  refine (canonical_collect_iff _ _).trans (forall_congr' fun key => ?_)
  rw [← List.map_reverse, ← List.map_reverse, OrderedMap.lookup_map_snd,
    OrderedMap.lookup_map_snd, Option.map_map, Option.map_map]
  rfl

theorem canonical_assign_iff {ms ns : Members} {key : String} {v w : Value}
    (hm : (ms.map Prod.fst).Nodup) (hn : (ns.map Prod.fst).Nodup)
    (hkey : key ∈ ms.map Prod.fst) (hkey' : key ∈ ns.map Prod.fst) :
    canonical (.obj (OrderedMap.assign key v ms)) = canonical (.obj (OrderedMap.assign key w ns)) ↔
      canonical v = canonical w ∧
        ∀ k, k ≠ key → (ms.lookup k).map canonical = (ns.lookup k).map canonical := by
  have hm' : ((OrderedMap.assign key v ms).map Prod.fst).Nodup := by
    rwa [OrderedMap.map_fst_assign]
  have hn' : ((OrderedMap.assign key w ns).map Prod.fst).Nodup := by
    rwa [OrderedMap.map_fst_assign]
  rw [canonical_obj_eq_iff hm' hn']
  constructor
  · intro h
    constructor
    · have hat := h key
      rw [OrderedMap.lookup_assign_self _ _ hkey, OrderedMap.lookup_assign_self _ _ hkey'] at hat
      exact Option.some.inj hat
    · intro k hk
      have hat := h k
      rwa [OrderedMap.lookup_assign_ne _ _ hk, OrderedMap.lookup_assign_ne _ _ hk] at hat
  · rintro ⟨hvalue,hother⟩ k
    by_cases hk : k = key
    · subst hk
      rw [OrderedMap.lookup_assign_self _ _ hkey, OrderedMap.lookup_assign_self _ _ hkey']
      exact congrArg some hvalue
    · rw [OrderedMap.lookup_assign_ne _ _ hk, OrderedMap.lookup_assign_ne _ _ hk]
      exact hother k hk

theorem canonical_member {v w : Value} (hv : Proper v) (hw : Proper w)
    (h : canonical v = canonical w) (key : String) :
    (member v key).map canonical = (member w key).map canonical := by
  cases v <;> cases w <;> simp only [canonical] at h <;> try cases h
  all_goals try rfl
  rw [Proper] at hv hw
  exact (canonical_obj_eq_iff hv.1 hw.1).mp (by rw [canonical, canonical, h]) key

def arrayItems : Value → Option (List Value)
  | .arr items => some items
  | _ => none

theorem canonical_servicesOf {v w : Value} (hv : Proper v) (hw : Proper w)
    (h : canonical v = canonical w) :
    (servicesOf v).map canonicalItems = (servicesOf w).map canonicalItems := by
  have hitems : ∀ app : Value, (servicesOf app).map canonicalItems =
      ((member app "services").map canonical).bind arrayItems := by
    intro app
    unfold servicesOf
    cases member app "services" with
    | none => rfl
    | some services => cases services <;> rfl
  rw [hitems, hitems, canonical_member hv hw h]

section Common
variable {M N K : List String}

theorem without_common {service service' : Value} (hsub : ∀ k, k ∈ M → k ∈ N → k ∈ K)
    (hM : canonical (without M service) = canonical (without M service'))
    (hN : canonical (without N service) = canonical (without N service')) :
    canonical (without K service) = canonical (without K service') := by
  rw [canonical_without_iff] at hM hN ⊢
  intro key hkey
  by_cases h : key ∈ M
  · exact hN key (fun h' => hkey (hsub key h h'))
  · exact hM key h

theorem services_common {services services' : List Value} (hsub : ∀ k, k ∈ M → k ∈ N → k ∈ K)
    (hM : canonicalItems (services.map (without M)) = canonicalItems (services'.map (without M)))
    (hN : canonicalItems (services.map (without N)) = canonicalItems (services'.map (without N))) :
    canonicalItems (services.map (without K)) = canonicalItems (services'.map (without K)) := by
  induction services generalizing services' with
  | nil =>
    cases services' with
    | nil => rfl
    | cons service' services' => cases hM
  | cons service services ih =>
    cases services' with
    | nil => cases hM
    | cons service' services' =>
      simp only [List.map_cons, canonicalItems, List.cons.injEq] at hM hN ⊢
      exact ⟨without_common hsub hM.1 hN.1,ih hM.2 hN.2⟩

theorem normalizeApp_common {app app' : Value} (happ : Proper app) (happ' : Proper app')
    (hsub : ∀ k, k ∈ M → k ∈ N → k ∈ K)
    (hM : canonical (normalizeApp M app) = canonical (normalizeApp M app'))
    (hN : canonical (normalizeApp N app) = canonical (normalizeApp N app')) :
    canonical (normalizeApp K app) = canonical (normalizeApp K app') := by
  have hservices := canonical_servicesOf (proper_normalizeApp M happ)
    (proper_normalizeApp M happ') hM
  rw [servicesOf_normalizeApp, servicesOf_normalizeApp] at hservices
  cases hv : servicesOf app with
  | none =>
    cases hw : servicesOf app' with
    | none =>
      rw [normalizeApp_of_none M hv, normalizeApp_of_none M hw] at hM
      rw [normalizeApp_of_none K hv, normalizeApp_of_none K hw, hM]
    | some services' =>
      rw [hv, hw] at hservices
      cases hservices
  | some services =>
    cases hw : servicesOf app' with
    | none =>
      rw [hv, hw] at hservices
      cases hservices
    | some services' =>
      obtain ⟨ms,rfl,hms,hnormal⟩ := normalizeApp_of_some hv
      obtain ⟨ns,rfl,hns,hnormal'⟩ := normalizeApp_of_some hw
      rw [Proper] at happ happ'
      have hmem := List.mem_map_of_mem (f := Prod.fst) (OrderedMap.mem_of_lookup ms hms)
      have hmem' := List.mem_map_of_mem (f := Prod.fst) (OrderedMap.mem_of_lookup ns hns)
      rw [hnormal, hnormal', canonical_assign_iff happ.1 happ'.1 hmem hmem'] at hM hN ⊢
      exact ⟨congrArg Value.arr (services_common hsub (Value.arr.inj hM.1) (Value.arr.inj hN.1)),
        hM.2⟩

theorem normalizeApps_common {apps apps' : Value} (happs : Proper apps) (happs' : Proper apps')
    (hsub : ∀ k, k ∈ M → k ∈ N → k ∈ K)
    (hM : canonical (normalizeApps M apps) = canonical (normalizeApps M apps'))
    (hN : canonical (normalizeApps N apps) = canonical (normalizeApps N apps')) :
    canonical (normalizeApps K apps) = canonical (normalizeApps K apps') := by
  have hproper : ∀ {apps : Value}, Proper apps → ∀ {key app}, taken apps key = some app →
      Proper app := by
    intro apps h key app htaken
    have hmem := List.mem_reverse.mp (OrderedMap.mem_of_lookup _ htaken)
    exact (properMembers_iff _).mp (properMembers_spread h) _ hmem
  rw [canonical_normalizeApps_iff] at hM hN ⊢
  intro key
  have hMkey := hM key
  have hNkey := hN key
  cases hv : taken apps key with
  | none =>
    cases hw : taken apps' key with
    | none => rfl
    | some app' =>
      rw [hv, hw] at hMkey
      cases hMkey
  | some app =>
    cases hw : taken apps' key with
    | none =>
      rw [hv, hw] at hMkey
      cases hMkey
    | some app' =>
      rw [hv, hw] at hMkey hNkey
      exact congrArg some (normalizeApp_common (hproper happs hv) (hproper happs' hw) hsub
        (Option.some.inj hMkey) (Option.some.inj hNkey))

theorem alikeWithout_iff {names : List String} {apps apps' : Value} (happs : Proper apps)
    (happs' : Proper apps') : AlikeWithout names apps apps' ↔
      canonical (normalizeApps names apps) = canonical (normalizeApps names apps') :=
  (canonical_eq_iff (proper_normalizeApps names happs) (proper_normalizeApps names happs')).symm

theorem alike_common {apps apps' : Value} (happs : Proper apps) (happs' : Proper apps')
    (hsub : ∀ k, k ∈ M → k ∈ N → k ∈ K) (hM : AlikeWithout M apps apps')
    (hN : AlikeWithout N apps apps') : AlikeWithout K apps apps' := by
  rw [alikeWithout_iff happs happs'] at hM hN ⊢
  exact normalizeApps_common happs happs' hsub hM hN

end Common

section Fields
variable (heap : Heap)

theorem appsChanged_eq {oldApps newApps : Value} (hold : Proper oldApps) (hnew : Proper newApps)
    {changed : Bool} : appsChanged oldApps newApps = some changed ↔
      (readableApps oldApps = true ∧ readableApps newApps = true) ∧
        (changed = true ↔ ¬AlikeWithout takenNames oldApps newApps) := by
  have htext : stableStringify (normalizeApps takenNames oldApps) ≠
      stableStringify (normalizeApps takenNames newApps) ↔
        ¬AlikeWithout takenNames oldApps newApps := by
    rw [ne_eq, stableStringify_inj (proper_normalizeApps takenNames hold)
      (proper_normalizeApps takenNames hnew), alikeWithout_iff hold hnew]
  unfold appsChanged
  rw [← htext]
  simp only [Bool.and_eq_true]
  by_cases hread : readableApps oldApps = true ∧ readableApps newApps = true
  · rw [if_pos hread, Option.some.injEq, and_iff_right hread]
    constructor
    · rintro rfl
      exact decide_eq_true_iff
    · intro h
      rw [Bool.eq_iff_iff, h]
      exact decide_eq_true_iff
  · rw [if_neg hread]
    constructor
    · intro h
      cases h
    · exact fun h => (hread h.1).elim

theorem appsChanged_some {oldApps newApps : Value}
    (h : readableApps oldApps = true ∧ readableApps newApps = true) :
    ∃ changed, appsChanged oldApps newApps = some changed :=
  ⟨_,if_pos (Bool.and_eq_true_iff.mpr h)⟩

theorem container_of_same {v w : Value} (h : SameValue v w) : container w = container v := by
  cases v with
  | arr items =>
    rw [SameValue, Same] at h
    obtain ⟨items',rfl,-⟩ := h
    rfl
  | obj members =>
    rw [SameValue, Same] at h
    obtain ⟨members',held,rfl,-⟩ := h
    rfl
  | num d =>
    rw [SameValue, Same] at h
    obtain ⟨e,rfl,-⟩ := h
    rfl
  | null => exact congrArg container (show w = .null from h)
  | bool b => exact congrArg container (show w = .bool b from h)
  | str s => exact congrArg container (show w = .str s from h)

theorem eq_of_same {v w : Value} (h : SameValue v w) (hv : container v = false) : v = w := by
  cases v with
  | arr items => cases hv
  | obj members => cases hv
  | num d =>
    rw [SameValue, Same] at h
    obtain ⟨e,rfl,he⟩ := h
    exact congrArg Value.num he
  | null => exact (show w = .null from h).symm
  | bool b => exact (show w = .bool b from h).symm
  | str s => exact (show w = .str s from h).symm

theorem value_object_iff (slot : Slot) :
    (∃ v, heap.value slot = some v ∧ container v = true) ↔ ∃ address, slot = .object address := by
  cases slot with
  | object address => exact iff_of_true ⟨_,rfl,heap.container address⟩ ⟨address,rfl⟩
  | _ => simp [Heap.value, container]

theorem value_inj {old new : Slot} (hold : ¬∃ address, old = .object address)
    (h : heap.value old = heap.value new) : old = new := by
  have hnew : ¬∃ address, new = .object address := by
    rwa [← value_object_iff heap, ← h, value_object_iff heap]
  cases old <;> cases new <;> simp_all [Heap.value]

theorem sameSlot_object {address : ℕ} {new : Slot} (h : SameSlot heap (.object address) new) :
    ∃ address', new = .object address' ∧
      SameValue (heap.read address) (heap.read address') := by
  unfold SameSlot at h
  cases hnew : heap.value new with
  | none =>
    rw [hnew] at h
    exact h.elim
  | some w =>
    rw [hnew] at h
    have hw : container w = true := (container_of_same h).trans (heap.container address)
    obtain ⟨address',rfl⟩ := (value_object_iff heap new).mp ⟨w,hnew,hw⟩
    obtain rfl := Option.some.inj hnew
    exact ⟨address',rfl,h⟩

theorem sameSlot_scalar {old new : Slot} (hold : ¬∃ address, old = .object address)
    (h : SameSlot heap old new) : old = new := by
  apply value_inj heap hold
  unfold SameSlot at h
  split at h
  · rename_i hv hw
    rw [hv, hw]
  · rename_i v w hv hw
    rw [hv, hw, eq_of_same h]
    by_contra hcontainer
    exact hold ((value_object_iff heap old).mp ⟨v,hv,Bool.eq_true_of_not_eq_false hcontainer⟩)
  · exact h.elim

theorem sameSlot_iff (old new : Slot) : SameSlot heap old new ↔
    old = new ∨ ∃ address address', old = .object address ∧ new = .object address' ∧
      SameValue (heap.read address) (heap.read address') := by
  constructor
  · intro h
    by_cases hold : ∃ address, old = .object address
    · obtain ⟨address,rfl⟩ := hold
      obtain ⟨address',hnew,hsame⟩ := sameSlot_object heap h
      exact Or.inr ⟨address,address',rfl,hnew,hsame⟩
    · exact Or.inl (sameSlot_scalar heap hold h)
  · rintro (rfl | ⟨address,address',rfl,rfl,h⟩)
    · cases old with
      | undefined => trivial
      | _ => exact same_of_canonical rfl
    · exact h

theorem alike_empty_iff {oldApps newApps : Value} (hold : Proper oldApps) (hnew : Proper newApps) :
    AlikeWithout [] oldApps newApps ↔
      AlikeWithout runtimeNames oldApps newApps ∧ AlikeWithout takenNames oldApps newApps := by
  constructor
  · intro h
    exact ⟨alike_common hold hnew (by simp) h h,alike_common hold hnew (by simp) h h⟩
  · rintro ⟨hruntime,htaken⟩
    exact alike_common hold hnew (by decide) hruntime htaken

theorem appsChanged_iff {oldApps newApps : Value} (hold : Proper oldApps)
    (hnew : Proper newApps) :
    (∃ changed, appsChanged oldApps newApps = some changed ∧
      (changed = true ↔ ¬AlikeWithout runtimeNames oldApps newApps)) ↔
    (readableApps oldApps = true ∧ readableApps newApps = true) ∧
      (AlikeWithout [] oldApps newApps ∨
        (¬AlikeWithout runtimeNames oldApps newApps ∧ ¬AlikeWithout takenNames oldApps newApps)) := by
  rw [alike_empty_iff hold hnew]
  constructor
  · rintro ⟨changed,hchanged,hiff⟩
    obtain ⟨hread,htaken⟩ := (appsChanged_eq hold hnew).mp hchanged
    refine ⟨hread,?_⟩
    rw [hiff] at htaken
    tauto
  · rintro ⟨hread,hboth⟩
    obtain ⟨changed,hchanged⟩ := appsChanged_some hread
    refine ⟨changed,hchanged,?_⟩
    rw [((appsChanged_eq hold hnew).mp hchanged).2]
    tauto

/-- Identity and equality of values agree on two values that are not held by
two objects. -/
theorem identity_iff (old new : Slot) : (old ≠ new ↔ ¬SameSlot heap old new) ↔
    ∀ address address', old = .object address → new = .object address' →
      SameValue (heap.read address) (heap.read address') → address = address' := by
  rw [sameSlot_iff]
  constructor
  · intro h address address' hold hnew hsame
    by_contra hne
    refine h.mp ?_ (Or.inr ⟨address,address',hold,hnew,hsame⟩)
    rintro rfl
    exact hne (Slot.object.inj (hold.symm.trans hnew))
  · intro h
    constructor
    · rintro hne (heq | ⟨address,address',hold,hnew,hsame⟩)
      · exact hne heq
      · apply hne
        rw [hold, hnew, h address address' hold hnew hsame]
    · exact fun hnot heq => hnot (Or.inl heq)

theorem fieldChanged_iff (key : String) (old new : Slot) :
    (∃ changed, fieldChanged heap key old new = some changed ∧
      (changed = true ↔ Changed heap key old new)) ↔ Told heap key old new := by
  have hold := proper_slot heap old
  have hnew := proper_slot heap new
  unfold fieldChanged Changed Told
  by_cases happs : key = "apps"
  · simp only [if_pos happs]
    exact appsChanged_iff hold hnew
  · simp only [if_neg happs]
    by_cases hconfig : key = "config"
    · simp only [if_pos hconfig, iff_true]
      refine ⟨_,rfl,?_⟩
      rw [decide_eq_true_iff, ne_eq, stableStringify_inj hold hnew, canonical_eq_iff hold hnew]
    · simp only [if_neg hconfig, Option.some.injEq, exists_eq_left', decide_eq_true_iff]
      exact identity_iff heap old new

theorem deviceDiff_some_iff (oldDevice : Device) (fields diff : List (String × Slot)) :
    deviceDiff heap oldDevice fields = some diff ↔
      (∀ f ∈ fields, ∃ changed, fieldChanged heap f.1 (fieldOf oldDevice f.1) f.2 = some changed) ∧
        diff = fields.filter
          (fun f => fieldChanged heap f.1 (fieldOf oldDevice f.1) f.2 == some true) := by
  induction fields generalizing diff with
  | nil => simp [deviceDiff, eq_comm]
  | cons f fields ih =>
    rw [deviceDiff, List.forall_mem_cons]
    cases hchanged : fieldChanged heap f.1 (fieldOf oldDevice f.1) f.2 with
    | none => simp
    | some changed =>
      rw [Option.bind_some, Option.map_eq_some_iff, List.filter_cons, hchanged]
      constructor
      · rintro ⟨rest,hrest,rfl⟩
        obtain ⟨hall,rfl⟩ := (ih rest).mp hrest
        refine ⟨⟨⟨changed,rfl⟩,hall⟩,?_⟩
        cases changed <;> rfl
      · rintro ⟨⟨-,hall⟩,rfl⟩
        refine ⟨_,(ih _).mpr ⟨hall,rfl⟩,?_⟩
        cases changed <;> rfl

theorem reportDiff_some {oldState : Report} {devices : List (String × Device)}
    {diff : List (String × List (String × Slot))}
    (h : reportDiff heap oldState devices = some diff) :
    (∀ d ∈ devices, ∃ fields, deviceDiff heap (deviceOf oldState d.1) d.2.entries = some fields) ∧
      ∀ uuid fields, (uuid,fields) ∈ diff ↔ fields ≠ [] ∧ ∃ device, (uuid,device) ∈ devices ∧
        deviceDiff heap (deviceOf oldState uuid) device.entries = some fields := by
  induction devices generalizing diff with
  | nil =>
    obtain rfl := Option.some.inj h
    simp
  | cons d devices ih =>
    rw [reportDiff] at h
    obtain ⟨first,hfirst,hrest⟩ := Option.bind_eq_some_iff.mp h
    obtain ⟨others,hothers,rfl⟩ := Option.map_eq_some_iff.mp hrest
    obtain ⟨hall,hmem⟩ := ih hothers
    refine ⟨List.forall_mem_cons.mpr ⟨⟨first,hfirst⟩,hall⟩,?_⟩
    intro uuid fields
    have hin : (uuid,fields) ∈ (if first.isEmpty then others else (d.1,first)::others) ↔
        (first ≠ [] ∧ uuid = d.1 ∧ fields = first) ∨ (uuid,fields) ∈ others := by
      cases first <;> simp
    rw [hin, hmem]
    constructor
    · rintro (⟨hne,rfl,rfl⟩ | ⟨hne,device,hdevice,hfields⟩)
      · exact ⟨hne,d.2,List.mem_cons_self,hfirst⟩
      · exact ⟨hne,device,List.mem_cons_of_mem _ hdevice,hfields⟩
    · rintro ⟨hne,device,hdevice,hfields⟩
      rcases List.mem_cons.mp hdevice with rfl | hdevice
      · obtain rfl := Option.some.inj (hfirst.symm.trans hfields)
        exact Or.inl ⟨hne,rfl,rfl⟩
      · exact Or.inr ⟨hne,device,hdevice,hfields⟩

theorem reportDiff_made {oldState : Report} {devices : List (String × Device)}
    (h : ∀ d ∈ devices, ∃ fields,
      deviceDiff heap (deviceOf oldState d.1) d.2.entries = some fields) :
    ∃ diff, reportDiff heap oldState devices = some diff := by
  induction devices with
  | nil => exact ⟨[],rfl⟩
  | cons d devices ih =>
    obtain ⟨⟨first,hfirst⟩,hrest⟩ := List.forall_mem_cons.mp h
    obtain ⟨others,hothers⟩ := ih hrest
    rw [reportDiff, hfirst, hothers]
    exact ⟨_,rfl⟩

theorem hasEntry_iff {oldState newState : Report} {diff : List (String × List (String × Slot))}
    (h : calculateStateDiff heap oldState newState = some diff) {uuid key : String}
    {device : Device} {value : Slot} (hdevice : (uuid,device) ∈ newState.entries)
    (hvalue : (key,value) ∈ device.entries) :
    HasEntry diff uuid key ↔
      fieldChanged heap key (fieldOf (deviceOf oldState uuid) key) value = some true := by
  obtain ⟨hall,hmem⟩ := reportDiff_some heap h
  obtain ⟨fields,hfields⟩ := hall _ hdevice
  have hfilter := ((deviceDiff_some_iff heap _ _ _).mp hfields).2
  constructor
  · rintro ⟨sent,hsent,hkey⟩
    obtain ⟨-,device',hdevice',hsame⟩ := (hmem uuid sent).mp hsent
    have hget := OrderedMap.get?_of_mem hdevice
    rw [OrderedMap.get?_of_mem hdevice'] at hget
    obtain rfl := Option.some.inj hget
    obtain rfl := Option.some.inj (hsame.symm.trans hfields)
    obtain ⟨f,hf,rfl⟩ := List.mem_map.mp hkey
    rw [hfilter, List.mem_filter] at hf
    have hheld := OrderedMap.get?_of_mem hvalue
    rw [OrderedMap.get?_of_mem hf.1] at hheld
    obtain rfl := Option.some.inj hheld
    exact eq_of_beq hf.2
  · intro hchanged
    have hf : (key,value) ∈ fields := by
      rw [hfilter, List.mem_filter]
      exact ⟨hvalue,beq_iff_eq.mpr hchanged⟩
    exact ⟨fields,(hmem uuid fields).mpr ⟨List.ne_nil_of_mem hf,device,hdevice,hfields⟩,
      List.mem_map_of_mem (f := Prod.fst) hf⟩

theorem told_of_exact {oldState newState : Report} (h : Exact heap oldState newState)
    {uuid key : String} {device : Device} {value : Slot} (hdevice : (uuid,device) ∈ newState.entries)
    (hvalue : (key,value) ∈ device.entries) :
    Told heap key (fieldOf (deviceOf oldState uuid) key) value := by
  obtain ⟨diff,hdiff,-,hexact⟩ := h
  obtain ⟨fields,hfields⟩ := (reportDiff_some heap hdiff).1 _ hdevice
  obtain ⟨changed,hchanged⟩ := ((deviceDiff_some_iff heap _ _ _).mp hfields).1 _ hvalue
  rw [← fieldChanged_iff]
  refine ⟨changed,hchanged,?_⟩
  rw [← hexact uuid device hdevice key value hvalue, hasEntry_iff heap hdiff hdevice hvalue,
    hchanged, Option.some.injEq]

theorem diff_of_new {oldState newState : Report} {diff : List (String × List (String × Slot))}
    (h : calculateStateDiff heap oldState newState = some diff) {uuid : String}
    {fields : List (String × Slot)} (hin : (uuid,fields) ∈ diff) :
    fields ≠ [] ∧
      ∃ device, (uuid,device) ∈ newState.entries ∧ ∀ f ∈ fields, f ∈ device.entries := by
  obtain ⟨hne,device,hdevice,hfields⟩ := ((reportDiff_some heap h).2 uuid fields).mp hin
  refine ⟨hne,device,hdevice,fun f hf => ?_⟩
  rw [((deviceDiff_some_iff heap _ _ _).mp hfields).2] at hf
  exact (List.mem_filter.mp hf).1

theorem exact_of_told {oldState newState : Report}
    (h : ∀ uuid device, (uuid,device) ∈ newState.entries →
      ∀ key value, (key,value) ∈ device.entries →
        Told heap key (fieldOf (deviceOf oldState uuid) key) value) :
    Exact heap oldState newState := by
  have hfields : ∀ d ∈ newState.entries, ∃ fields,
      deviceDiff heap (deviceOf oldState d.1) d.2.entries = some fields := by
    intro d hd
    refine ⟨_,(deviceDiff_some_iff heap _ _ _).mpr ⟨?_,rfl⟩⟩
    intro f hf
    obtain ⟨changed,hchanged,-⟩ := (fieldChanged_iff heap _ _ _).mpr (h d.1 d.2 hd f.1 f.2 hf)
    exact ⟨changed,hchanged⟩
  obtain ⟨diff,hdiff⟩ := reportDiff_made heap hfields
  refine ⟨diff,hdiff,fun uuid fields hin => diff_of_new heap hdiff hin,?_⟩
  intro uuid device hdevice key value hvalue
  obtain ⟨changed,hchanged,hiff⟩ := (fieldChanged_iff heap _ _ _).mpr
    (h uuid device hdevice key value hvalue)
  rw [hasEntry_iff heap hdiff hdevice hvalue, hchanged, Option.some.injEq, hiff]

end Fields

/-- The diff is exact exactly if the change of every field can be told. -/
theorem diff_exact_iff (heap : Heap) (oldState newState : Report) :
    Exact heap oldState newState ↔
      ∀ uuid device, (uuid,device) ∈ newState.entries →
        ∀ key value, (key,value) ∈ device.entries →
          Told heap key (fieldOf (deviceOf oldState uuid) key) value :=
  ⟨fun h _ _ hdevice _ _ hvalue => told_of_exact heap h hdevice hvalue,exact_of_told heap⟩

def runningApp (containerId : String) : Value :=
  .obj [("1",.obj [("services",.arr [.obj [("containerId",.str containerId)]])])]

/-- Two sets of apps, and one list of devices wherever else one looks. -/
def rebuilt : Heap where
  read
    | 0 => runningApp "a"
    | 1 => runningApp "b"
    | _ => .arr [.str "sensor"]
  proper address := by
    match address with
    | 0 => simp [runningApp, Proper, ProperItems, ProperMembers]
    | 1 => simp [runningApp, Proper, ProperItems, ProperMembers]
    | n+2 => simp [Proper, ProperItems]
  container address := by
    match address with
    | 0 => rfl
    | 1 => rfl
    | n+2 => rfl

def reportOf (key : String) (value : Slot) : Report :=
  ⟨[("agent",⟨[(key,value)],by simp⟩)],by simp⟩

/-- A list that is built anew and a container that is created anew are both
taken for a change. -/
theorem same_state_diffed :
    ¬Exact rebuilt (reportOf "devices" (.object 2)) (reportOf "devices" (.object 3)) ∧
    ¬Exact rebuilt (reportOf "apps" (.object 0)) (reportOf "apps" (.object 1)) := by
  constructor
  · intro h
    have htold := told_of_exact rebuilt h List.mem_cons_self List.mem_cons_self
    cases htold 2 3 rfl rfl (same_of_canonical rfl)
  · intro h
    have htold := told_of_exact rebuilt h List.mem_cons_self List.mem_cons_self
    rcases htold.2 with halike | ⟨hruntime,-⟩
    · rw [alikeWithout_iff (proper_slot rebuilt _) (proper_slot rebuilt _)] at halike
      change runningApp "a" = runningApp "b" at halike
      simp [runningApp] at halike
    · apply hruntime
      rw [alikeWithout_iff (proper_slot rebuilt _) (proper_slot rebuilt _)]
      rfl

end Iotistica.StateDiff
