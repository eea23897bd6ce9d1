import Mathlib.Data.List.Nodup
import Iotistica.AnomalyFeed
import Iotistica.JsNumerals

/-!
# The keys of numeric leaves

The walk passes only the key of a container down, not the way to it. A leaf
is therefore dispatched under the name of the container that holds it and its
own, with the device of that container. The leaves of a message keep apart
exactly if these names do.
-/

set_option autoImplicit false

namespace Iotistica.MetricIdentity
open Iotistica Iotistica.DriftSchema Iotistica.AnomalyFeed Iotistica.JsNumerals

/-- A number of a message: the way to it, the device of the container that
holds it, and its value. -/
structure Leaf where
  path : List String
  uuid : Option String
  value : ℚ

variable (f : Feed)

mutual

def leaves (path : List String) : Json → List Leaf
  | .obj entries => entryLeaves path (payloadDeviceUuid (.obj entries)) entries
  | .arr items => itemLeaves path 0 items
  | _ => []

def entryLeaves (path : List String) (uuid : Option String) : List (String × Json) → List Leaf
  | [] => []
  | (key,value)::entries =>
    (match toFiniteNumber f value with
      | some num => [⟨path++[key],uuid,num⟩]
      | none => leaves (path++[key]) value)++entryLeaves path uuid entries

def itemLeaves (path : List String) (index : ℕ) : List Json → List Leaf
  | [] => []
  | value::items =>
    (match toFiniteNumber f value with
      | some num => [⟨path++[index.repr],none,num⟩]
      | none => leaves (path++[index.repr]) value)++itemLeaves path (index+1) items

end

def headLeaves (path : List String) (uuid : Option String) (key : String) (value : Json) :
    List Leaf :=
  match toFiniteNumber f value with
  | some num => [⟨path++[key],uuid,num⟩]
  | none => leaves f (path++[key]) value

theorem entryLeaves_cons (path : List String) (uuid : Option String) (key : String) (value : Json)
    (entries : List (String × Json)) : entryLeaves f path uuid ((key,value)::entries) =
      headLeaves f path uuid key value++entryLeaves f path uuid entries := by
  rw [entryLeaves]
  rfl

theorem itemLeaves_cons (path : List String) (index : ℕ) (value : Json) (items : List Json) :
    itemLeaves f path index (value::items) =
      headLeaves f path none index.repr value++itemLeaves f path (index+1) items := by
  rw [itemLeaves]
  rfl

mutual

def TakesWalk (scope : String) (depth : ℕ) : Json → Prop
  | .obj entries =>
    depth ≤ maxRecursionDepth ∧ isReadingObject entries = false ∧ EntriesTake (depth+1) entries
  | .arr items => depth ≤ maxRecursionDepth ∧ scope ≠ "readings" ∧ ItemsTake (depth+1) 0 items
  | _ => True

def EntriesTake (depth : ℕ) : List (String × Json) → Prop
  | [] => True
  | (key,value)::entries => TakesWalk key depth value ∧ EntriesTake depth entries

def ItemsTake (depth index : ℕ) : List Json → Prop
  | [] => True
  | value::items => TakesWalk index.repr depth value ∧ ItemsTake depth (index+1) items

end

mutual

def DistinctKeys : Json → Prop
  | .obj entries => (entries.map Prod.fst).Nodup ∧ EntriesDistinct entries
  | .arr items => ItemsDistinct items
  | _ => True

def EntriesDistinct : List (String × Json) → Prop
  | [] => True
  | (_,value)::entries => DistinctKeys value ∧ EntriesDistinct entries

def ItemsDistinct : List Json → Prop
  | [] => True
  | value::items => DistinctKeys value ∧ ItemsDistinct items

end

def scopeOf (path : List String) : String := path.getLast?.getD ""

def fieldName (path : List String) : String := metricName (scopeOf path.dropLast) (scopeOf path)

def deviceIdentifier (deviceName : String) (uuid : Option String) : String :=
  match uuid with
  | some s => if trimmed s = "" then (if deviceName = "" then "unknown" else deviceName)
    else trimmed s
  | none => if deviceName = "" then "unknown" else deviceName

def leafName (deviceName : String) (l : Leaf) : String :=
  deviceIdentifier deviceName l.uuid++"_"++fieldName l.path

@[simp] theorem scopeOf_snoc (path : List String) (key : String) : scopeOf (path++[key]) = key := by
  simp [scopeOf]

@[simp] theorem fieldName_snoc (path : List String) (key : String) :
    fieldName (path++[key]) = metricName (scopeOf path) key := by
  simp [fieldName]

def leafKey (deviceName : String) (l : Leaf) : String := f.deviceUuid++"_"++leafName deviceName l

theorem leafKey_inj {deviceName : String} {l l' : Leaf} :
    leafKey f deviceName l = leafKey f deviceName l' ↔
      leafName deviceName l = leafName deviceName l' := by
  constructor
  · intro h
    have hlist := congrArg String.toList h
    unfold leafKey at hlist
    simp only [String.toList_append, List.append_right_inj] at hlist
    exact String.toList_inj.mp hlist
  · intro h
    unfold leafKey
    rw [h]

theorem buildMetricKey_leaf (deviceName : String) (l : Leaf) :
    buildMetricKey f (l.uuid.map Json.str) deviceName (fieldName l.path) =
      leafKey f deviceName l := by
  unfold leafKey leafName buildMetricKey deviceIdentifier
  cases l.uuid <;> simp [String.append_assoc]

def brief (p : DataPoint) : String × ℚ × ℤ := (p.metric,p.value,p.timestamp)

def leafBrief (deviceName : String) (timestampMs : ℤ) (l : Leaf) : String × ℚ × ℤ :=
  (leafKey f deviceName l,l.value,timestampMs)

theorem brief_numericPoint (data : Json) (deviceName : String) (timestampMs : ℤ)
    (path : List String) (key : String) (num : ℚ) :
    brief (numericPoint f data deviceName timestampMs (scopeOf path) key num) =
      leafBrief f deviceName timestampMs ⟨path++[key],payloadDeviceUuid data,num⟩ := by
  unfold leafBrief
  rw [← buildMetricKey_leaf]
  simp only [fieldName_snoc]
  rfl

theorem walk_value (deviceName : String) (timestampMs : ℤ) (path : List String) (depth : ℕ)
    (data : Json) (key : String) (value : Json)
    (ih : isContainer value = true →
      (extractNumericFields f value deviceName timestampMs (scopeOf (path++[key])) depth).map
          brief =
        (leaves f (path++[key]) value).map (leafBrief f deviceName timestampMs)) :
    (match toFiniteNumber f value with
      | some num => [numericPoint f data deviceName timestampMs (scopeOf path) key num]
      | none =>
        if isContainer value then extractNumericFields f value deviceName timestampMs key depth
        else []).map brief =
      (headLeaves f path (payloadDeviceUuid data) key value).map
        (leafBrief f deviceName timestampMs) := by
  rw [scopeOf_snoc] at ih
  unfold headLeaves
  cases hnum : toFiniteNumber f value with
  | some num =>
    exact congrArg (fun x => [x]) (brief_numericPoint f data deviceName timestampMs path key num)
  | none =>
    simp only
    split
    · rename_i hc
      exact ih hc
    · rename_i hc
      cases value with
      | arr items => exact absurd rfl hc
      | obj members => exact absurd rfl hc
      | null => simp [leaves]
      | bool b => simp [leaves]
      | num q => simp [leaves]
      | str s => simp [leaves]

mutual

theorem walk_leaves (deviceName : String) (timestampMs : ℤ) (path : List String) (depth : ℕ) :
    ∀ data : Json, isContainer data = true → TakesWalk (scopeOf path) depth data →
      (extractNumericFields f data deviceName timestampMs (scopeOf path) depth).map brief =
        (leaves f path data).map (leafBrief f deviceName timestampMs)
  | .obj entries, _, h => by
    unfold TakesWalk at h
    obtain ⟨hdepth,hshape,hentries⟩ := h
    rw [extractNumericFields, if_neg (Nat.not_lt.mpr hdepth)]
    simp only [hshape, Bool.false_eq_true, if_false, leaves]
    exact walk_entryLeaves deviceName timestampMs path depth (.obj entries) entries hentries
  | .arr items, _, h => by
    unfold TakesWalk at h
    obtain ⟨hdepth,hshape,hitems⟩ := h
    rw [extractNumericFields, if_neg (Nat.not_lt.mpr hdepth)]
    simp only [hshape, if_false, leaves]
    exact walk_itemLeaves deviceName timestampMs path depth items 0 items hitems

theorem walk_entryLeaves (deviceName : String) (timestampMs : ℤ) (path : List String)
    (depth : ℕ) (data : Json) : ∀ entries : List (String × Json), EntriesTake (depth+1) entries →
      (walkEntries f data entries deviceName timestampMs (scopeOf path) depth).map brief =
        (entryLeaves f path (payloadDeviceUuid data) entries).map
          (leafBrief f deviceName timestampMs)
  | [], _ => by simp [walkEntries, entryLeaves]
  | (key,value)::entries, h => by
    unfold EntriesTake at h
    have htakes : TakesWalk (scopeOf (path++[key])) (depth+1) value := by
      rw [scopeOf_snoc]
      exact h.1
    have hvalue := walk_value f deviceName timestampMs path (depth+1) data key value
      (fun hc => walk_leaves deviceName timestampMs (path++[key]) (depth+1) value hc htakes)
    have hrest := walk_entryLeaves deviceName timestampMs path depth data entries h.2
    rw [walkEntries, entryLeaves_cons, List.map_append, List.map_append, hrest]
    exact congrArg (fun x => x++_) hvalue

theorem walk_itemLeaves (deviceName : String) (timestampMs : ℤ) (path : List String)
    (depth : ℕ) (all : List Json) (index : ℕ) : ∀ items : List Json,
      ItemsTake (depth+1) index items →
      (walkItems f (.arr all) items index deviceName timestampMs (scopeOf path) depth).map brief =
        (itemLeaves f path index items).map (leafBrief f deviceName timestampMs)
  | [], _ => by simp [walkItems, itemLeaves]
  | value::items, h => by
    unfold ItemsTake at h
    have htakes : TakesWalk (scopeOf (path++[index.repr])) (depth+1) value := by
      rw [scopeOf_snoc]
      exact h.1
    have hvalue := walk_value f deviceName timestampMs path (depth+1) (.arr all) index.repr value
      (fun hc => walk_leaves deviceName timestampMs (path++[index.repr]) (depth+1) value hc htakes)
    have hrest := walk_itemLeaves deviceName timestampMs path depth all (index+1) items h.2
    rw [walkItems, itemLeaves_cons, List.map_append, List.map_append, hrest]
    exact congrArg (fun x => x++_) hvalue

end

def Under (path : List String) (keys : List String) (l : Leaf) : Prop :=
  ∃ key ∈ keys, ∃ rest, l.path = path++key::rest

theorem Under.mono {path keys keys' : List String} {l : Leaf} (h : Under path keys l)
    (hk : keys ⊆ keys') : Under path keys' l := by
  obtain ⟨key,hkey,hrest⟩ := h
  exact ⟨key,hk hkey,hrest⟩

theorem path_ne_of_under {path keys keys' : List String} {l l' : Leaf} (h : Under path keys l)
    (h' : Under path keys' l') (hd : ∀ key ∈ keys, key ∉ keys') : l.path ≠ l'.path := by
  obtain ⟨key,hkey,rest,hpath⟩ := h
  obtain ⟨key',hkey',rest',hpath'⟩ := h'
  rw [hpath, hpath']
  intro he
  have hcons := List.append_cancel_left he
  rw [List.cons_eq_cons] at hcons
  exact hd key hkey (hcons.1 ▸ hkey')

theorem under_of_extends {path : List String} {key : String} {l : Leaf}
    (h : path++[key] <+: l.path) : Under path [key] l := by
  obtain ⟨rest,hrest⟩ := h
  refine ⟨key,List.mem_singleton_self key,rest,?_⟩
  rw [← hrest, List.append_assoc]
  rfl

theorem extends_headLeaves {path : List String} {uuid : Option String} {key : String}
    {value : Json} (ih : ∀ l ∈ leaves f (path++[key]) value, path++[key] <+: l.path) :
    ∀ l ∈ headLeaves f path uuid key value, Under path [key] l := by
  intro l hl
  apply under_of_extends
  unfold headLeaves at hl
  split at hl
  · obtain rfl := List.mem_singleton.mp hl
    exact List.prefix_refl _
  · exact ih l hl

mutual

theorem extends_leaves (path : List String) : ∀ data : Json, ∀ l ∈ leaves f path data,
    path <+: l.path
  | .null => by simp [leaves]
  | .bool _ => by simp [leaves]
  | .num _ => by simp [leaves]
  | .str _ => by simp [leaves]
  | .obj entries => by
    intro l hl
    rw [leaves] at hl
    obtain ⟨key,-,rest,hrest⟩ := under_entryLeaves path _ entries l hl
    exact ⟨key::rest,hrest.symm⟩
  | .arr items => by
    intro l hl
    rw [leaves] at hl
    obtain ⟨key,-,rest,hrest⟩ := under_itemLeaves path 0 items l hl
    exact ⟨key::rest,hrest.symm⟩

theorem under_entryLeaves (path : List String) (uuid : Option String) :
    ∀ entries : List (String × Json), ∀ l ∈ entryLeaves f path uuid entries,
      Under path (entries.map Prod.fst) l
  | [] => by simp [entryLeaves]
  | (key,value)::entries => by
    intro l hl
    rw [entryLeaves_cons] at hl
    rcases List.mem_append.mp hl with hl | hl
    · exact (extends_headLeaves f (extends_leaves (path++[key]) value) l hl).mono (by simp)
    · exact (under_entryLeaves path uuid entries l hl).mono (by simp)

theorem under_itemLeaves (path : List String) (index : ℕ) :
    ∀ items : List Json, ∀ l ∈ itemLeaves f path index items,
      Under path ((List.range' index items.length).map Nat.repr) l
  | [] => by simp [itemLeaves]
  | value::items => by
    intro l hl
    rw [itemLeaves_cons] at hl
    rw [List.length_cons, List.range'_succ, List.map_cons]
    rcases List.mem_append.mp hl with hl | hl
    · exact (extends_headLeaves f (extends_leaves (path++[index.repr]) value) l hl).mono (by simp)
    · exact (under_itemLeaves path (index+1) items l hl).mono (by simp)

end

def PathsDistinct (ls : List Leaf) : Prop := (ls.map Leaf.path).Nodup

theorem pathsDistinct_append {path keys keys' : List String} {ls ls' : List Leaf}
    (h : PathsDistinct ls) (h' : PathsDistinct ls') (hu : ∀ l ∈ ls, Under path keys l)
    (hu' : ∀ l ∈ ls', Under path keys' l) (hd : ∀ key ∈ keys, key ∉ keys') :
    PathsDistinct (ls++ls') := by
  unfold PathsDistinct at *
  rw [List.map_append, List.nodup_append]
  refine ⟨h,h',?_⟩
  intro p hp q hq
  obtain ⟨l,hl,rfl⟩ := List.mem_map.mp hp
  obtain ⟨l',hl',rfl⟩ := List.mem_map.mp hq
  exact path_ne_of_under (hu l hl) (hu' l' hl') hd

theorem pathsDistinct_headLeaves {path : List String} {uuid : Option String} {key : String}
    {value : Json} (ih : PathsDistinct (leaves f (path++[key]) value)) :
    PathsDistinct (headLeaves f path uuid key value) := by
  unfold headLeaves
  split
  · exact List.nodup_singleton _
  · exact ih

mutual

theorem pathsDistinct_leaves (path : List String) : ∀ data : Json, DistinctKeys data →
    PathsDistinct (leaves f path data)
  | .null, _ => by simp [leaves, PathsDistinct]
  | .bool _, _ => by simp [leaves, PathsDistinct]
  | .num _, _ => by simp [leaves, PathsDistinct]
  | .str _, _ => by simp [leaves, PathsDistinct]
  | .obj entries, h => by
    unfold DistinctKeys at h
    rw [leaves]
    exact pathsDistinct_entryLeaves path _ entries h.1 h.2
  | .arr items, h => by
    unfold DistinctKeys at h
    rw [leaves]
    exact pathsDistinct_itemLeaves path 0 items h

theorem pathsDistinct_entryLeaves (path : List String) (uuid : Option String) :
    ∀ entries : List (String × Json), (entries.map Prod.fst).Nodup → EntriesDistinct entries →
      PathsDistinct (entryLeaves f path uuid entries)
  | [], _, _ => by simp [entryLeaves, PathsDistinct]
  | (key,value)::entries, hn, h => by
    unfold EntriesDistinct at h
    obtain ⟨hout,hn⟩ := List.nodup_cons.mp hn
    rw [entryLeaves_cons]
    refine pathsDistinct_append
      (pathsDistinct_headLeaves f (pathsDistinct_leaves (path++[key]) value h.1))
      (pathsDistinct_entryLeaves path uuid entries hn h.2)
      (extends_headLeaves f (extends_leaves f (path++[key]) value))
      (under_entryLeaves f path uuid entries) ?_
    intro k hk
    rw [List.mem_singleton.mp hk]
    exact hout

theorem pathsDistinct_itemLeaves (path : List String) (index : ℕ) :
    ∀ items : List Json, ItemsDistinct items → PathsDistinct (itemLeaves f path index items)
  | [], _ => by simp [itemLeaves, PathsDistinct]
  | value::items, h => by
    unfold ItemsDistinct at h
    rw [itemLeaves_cons]
    refine pathsDistinct_append
      (pathsDistinct_headLeaves f (pathsDistinct_leaves (path++[index.repr]) value h.1))
      (pathsDistinct_itemLeaves path (index+1) items h.2)
      (extends_headLeaves f (extends_leaves f (path++[index.repr]) value))
      (under_itemLeaves f path (index+1) items) ?_
    intro k hk hmem
    rw [List.mem_singleton.mp hk] at hmem
    obtain ⟨j,hj,he⟩ := List.mem_map.mp hmem
    have hle := (List.mem_range'_1.mp hj).1
    have hji := repr_injective he
    omega

end

def fresh : List String → List DataPoint → List DataPoint
  | _, [] => []
  | seen, p::points =>
    if dedupKey p ∈ seen then fresh seen points else p::fresh (seen++[dedupKey p]) points

theorem foldl_dispatch (points : List DataPoint) (b : Batch) :
    (points.foldl dispatchToAnomaly b).calls = b.calls++fresh b.batchProcessedMetrics points := by
  induction points generalizing b with
  | nil => exact (List.append_nil _).symm
  | cons p points ih =>
    rw [List.foldl_cons, ih]
    unfold dispatchToAnomaly
    rw [fresh]
    split
    · rfl
    · rw [List.append_assoc]
      rfl

theorem fresh_sublist (seen : List String) (points : List DataPoint) :
    (fresh seen points).Sublist points := by
  induction points generalizing seen with
  | nil => exact List.Sublist.slnil
  | cons p points ih =>
    rw [fresh]
    split
    · exact (ih seen).cons p
    · exact (ih _).cons_cons p

theorem fresh_nodup (seen : List String) (points : List DataPoint) :
    ((fresh seen points).map dedupKey).Nodup ∧ ∀ p ∈ fresh seen points, dedupKey p ∉ seen := by
  induction points generalizing seen with
  | nil => exact ⟨List.nodup_nil,nofun⟩
  | cons p points ih =>
    rw [fresh]
    split
    · exact ih seen
    · rename_i hp
      obtain ⟨hn,hout⟩ := ih (seen++[dedupKey p])
      constructor
      · rw [List.map_cons, List.nodup_cons]
        refine ⟨?_,hn⟩
        intro hmem
        obtain ⟨q,hq,he⟩ := List.mem_map.mp hmem
        exact hout q hq (by rw [he]; simp)
      · intro q hq
        rcases List.mem_cons.mp hq with rfl | hq
        · exact hp
        · intro hseen
          exact hout q hq (List.mem_append_left _ hseen)

theorem fresh_eq_self {seen : List String} {points : List DataPoint}
    (hn : (points.map dedupKey).Nodup) (hout : ∀ p ∈ points, dedupKey p ∉ seen) :
    fresh seen points = points := by
  induction points generalizing seen with
  | nil => rfl
  | cons p points ih =>
    obtain ⟨hp,hn⟩ := List.nodup_cons.mp hn
    rw [fresh, if_neg (hout p List.mem_cons_self), ih hn]
    intro q hq hmem
    rcases List.mem_append.mp hmem with hmem | hmem
    · exact hout q (List.mem_cons_of_mem p hq) hmem
    · exact hp (List.mem_map.mpr ⟨q,hq,List.mem_singleton.mp hmem⟩)

/-- Every leaf reaches the service, and leaves at different paths do so under
different keys. -/
def KeepsIdentity (deviceName : String) (timestampMs : ℤ) (data : Json) : Prop :=
  ∃ keyOf : List String → String,
    (∀ l ∈ leaves f [] data, ∃ p ∈ processBatch f [data] deviceName timestampMs,
      p.metric = keyOf l.path ∧ p.value = l.value) ∧
    ∀ l ∈ leaves f [] data, ∀ l' ∈ leaves f [] data, l.path ≠ l'.path →
      keyOf l.path ≠ keyOf l'.path

/-- A message that the generic walk takes to its end. -/
structure GenericMessage (data : Json) : Prop where
  container : isContainer data = true
  walk : TakesWalk "" 0 data
  keys : DistinctKeys data

section
variable {data : Json} (deviceName : String) (timestampMs : ℤ)

theorem points_brief (h : GenericMessage data) :
    (extractNumericFields f data deviceName timestampMs "" 0).map brief =
      (leaves f [] data).map (leafBrief f deviceName timestampMs) :=
  walk_leaves f deviceName timestampMs [] 0 data h.container h.walk

theorem processBatch_single : processBatch f [data] deviceName timestampMs =
    fresh [] (extractNumericFields f data deviceName timestampMs "" 0) := by
  unfold processBatch
  rw [foldl_dispatch, List.flatMap_cons, List.flatMap_nil, List.append_nil]
  rfl

theorem dedupKeys (h : GenericMessage data) :
    (extractNumericFields f data deviceName timestampMs "" 0).map dedupKey =
      (leaves f [] data).map (fun l => leafKey f deviceName l++":"++toString timestampMs) := by
  have hbrief := congrArg (List.map (fun b : String × ℚ × ℤ => b.1++":"++toString b.2.2))
    (points_brief f deviceName timestampMs h)
  rw [List.map_map, List.map_map] at hbrief
  exact hbrief

theorem stamp_inj {a b suffix : String} (h : a++":"++suffix = b++":"++suffix) : a = b := by
  have hlist := congrArg String.toList h
  simp only [String.toList_append, List.append_left_inj] at hlist
  exact String.toList_inj.mp hlist

theorem find_path {ls : List Leaf} (hn : (ls.map Leaf.path).Nodup) {l : Leaf} (hl : l ∈ ls) :
    ls.find? (fun m => m.path = l.path) = some l := by
  cases hf : ls.find? (fun m => m.path = l.path) with
  | none => simpa using List.find?_eq_none.mp hf l hl
  | some m =>
    have hm := List.mem_of_find?_eq_some hf
    have hpath : m.path = l.path := by simpa using List.find?_some hf
    rw [List.inj_on_of_nodup_map hn hm hl hpath]

theorem leafNames_of_kept {f : Feed} {deviceName : String} {timestampMs : ℤ} {data : Json}
    (h : GenericMessage data) (hkeep : KeepsIdentity f deviceName timestampMs data) :
    ∀ l ∈ leaves f [] data, ∀ l' ∈ leaves f [] data, l.path ≠ l'.path →
      leafName deviceName l ≠ leafName deviceName l' := by
  have hpaths : ((leaves f [] data).map Leaf.path).Nodup := pathsDistinct_leaves f [] data h.keys
  have hbrief := points_brief f deviceName timestampMs h
  have hdedup := dedupKeys f deviceName timestampMs h
  unfold KeepsIdentity at hkeep
  rw [processBatch_single] at hkeep
  obtain ⟨keyOf,hcalls,hkeys⟩ := hkeep
  intro l hl l' hl' hne hname
  -- the calls have as many keys as there are leaves, so none was suppressed
  have hinj : (((leaves f [] data).map Leaf.path).map keyOf).Nodup := by
    refine hpaths.map_on ?_
    intro p hp q hq he
    obtain ⟨m,hm,rfl⟩ := List.mem_map.mp hp
    obtain ⟨m',hm',rfl⟩ := List.mem_map.mp hq
    by_contra hpq
    exact hkeys m hm m' hm' hpq he
  have hsub : ((leaves f [] data).map Leaf.path).map keyOf ⊆
      (fresh [] (extractNumericFields f data deviceName timestampMs "" 0)).map
        DataPoint.metric := by
    intro key hkey
    obtain ⟨p,hp,rfl⟩ := List.mem_map.mp hkey
    obtain ⟨m,hm,rfl⟩ := List.mem_map.mp hp
    obtain ⟨point,hpoint,hmetric,-⟩ := hcalls m hm
    exact List.mem_map.mpr ⟨point,hpoint,hmetric⟩
  have hle := hinj.length_le_of_subset hsub
  have hlength := congrArg List.length hbrief
  simp only [List.length_map] at hle hlength
  have hall := (fresh_sublist [] (extractNumericFields f data deviceName timestampMs "" 0)
    ).eq_of_length_le (hlength ▸ hle)
  have hnodup := (fresh_nodup [] (extractNumericFields f data deviceName timestampMs "" 0)).1
  rw [hall, hdedup] at hnodup
  have hkey : leafKey f deviceName l++":"++toString timestampMs =
      leafKey f deviceName l'++":"++toString timestampMs := by
    rw [(leafKey_inj f).mpr hname]
  exact hne (congrArg Leaf.path (List.inj_on_of_nodup_map hnodup hl hl' hkey))

theorem kept_of_leafNames {f : Feed} {deviceName : String} {timestampMs : ℤ} {data : Json}
    (h : GenericMessage data)
    (hnames : ∀ l ∈ leaves f [] data, ∀ l' ∈ leaves f [] data, l.path ≠ l'.path →
      leafName deviceName l ≠ leafName deviceName l') :
    KeepsIdentity f deviceName timestampMs data := by
  have hpaths : ((leaves f [] data).map Leaf.path).Nodup := pathsDistinct_leaves f [] data h.keys
  have hbrief := points_brief f deviceName timestampMs h
  have hdedup := dedupKeys f deviceName timestampMs h
  unfold KeepsIdentity
  rw [processBatch_single]
  have hnodup : ((leaves f [] data).map
      (fun l => leafKey f deviceName l++":"++toString timestampMs)).Nodup := by
    refine (List.Nodup.of_map _ hpaths).map_on ?_
    intro l hl l' hl' he
    by_contra hne
    refine hnames l hl l' hl' ?_ ((leafKey_inj f).mp (stamp_inj he))
    intro hpath
    exact hne (List.inj_on_of_nodup_map hpaths hl hl' hpath)
  rw [← hdedup] at hnodup
  rw [fresh_eq_self hnodup (fun p _ hp => absurd hp List.not_mem_nil)]
  refine ⟨fun path => (((leaves f [] data).find? (fun m => m.path = path)).map
    (leafKey f deviceName)).getD "",?_,?_⟩
  · intro l hl
    have hmem : leafBrief f deviceName timestampMs l ∈
        (extractNumericFields f data deviceName timestampMs "" 0).map brief := by
      rw [hbrief]
      exact List.mem_map_of_mem hl
    obtain ⟨p,hp,he⟩ := List.mem_map.mp hmem
    refine ⟨p,hp,?_,congrArg (fun b => b.2.1) he⟩
    simp only [find_path hpaths hl, Option.map_some, Option.getD_some]
    exact congrArg Prod.fst he
  · intro l hl l' hl' hne
    simp only [find_path hpaths hl, find_path hpaths hl', Option.map_some, Option.getD_some]
    intro he
    exact hnames l hl l' hl' hne ((leafKey_inj f).mp he)

/-- The leaves of a message are told apart exactly if no two of them agree in
the device of their container and in its name with their own. -/
theorem leaves_keep_identity_iff (f : Feed) (deviceName : String) (timestampMs : ℤ) (data : Json)
    (h : GenericMessage data) :
    KeepsIdentity f deviceName timestampMs data ↔
      ∀ l ∈ leaves f [] data, ∀ l' ∈ leaves f [] data, l.path ≠ l'.path →
        leafName deviceName l ≠ leafName deviceName l' :=
  ⟨leafNames_of_kept h,kept_of_leafNames h⟩

end

def plant : Feed := ⟨id,fun _ => "","4f1c",some .mqtt⟩

def twoLines (v w : String) : Json :=
  .obj [("a",.obj [("x",.obj [(v,.num 1)])]),("b",.obj [("x",.obj [(w,.num 2)])])]

theorem twoLines_generic {v w : String} (hv : v ≠ "deviceName") (hw : w ≠ "deviceName") :
    GenericMessage (twoLines v w) where
  container := rfl
  walk := by
    have hshape : ∀ (key : String) (value : Json), key ≠ "deviceName" →
        isReadingObject [(key,value)] = false := by
      intro key value hkey
      have hlookup : [(key,value)].lookup "deviceName" = none := by
        rw [List.lookup_cons, beq_false_of_ne (Ne.symm hkey)]
        rfl
      unfold isReadingObject
      rw [hlookup]
      rfl
    simp only [twoLines, TakesWalk, EntriesTake, hshape _ _ hv, hshape _ _ hw]
    have hdepth : ∀ n, n ≤ 2 → n ≤ maxRecursionDepth := by decide
    exact ⟨hdepth 0 (by decide),rfl,
      ⟨hdepth 1 (by decide),rfl,⟨hdepth 2 (by decide),trivial,trivial,trivial⟩,trivial⟩,
      ⟨hdepth 1 (by decide),rfl,⟨hdepth 2 (by decide),trivial,trivial,trivial⟩,trivial⟩,trivial⟩
  keys := by simp [twoLines, DistinctKeys, EntriesDistinct]

theorem speed_and_load_kept :
    KeepsIdentity plant "press" 0 (twoLines "speed" "load") :=
  (leaves_keep_identity_iff plant "press" 0 (twoLines "speed" "load")
    (twoLines_generic (by decide) (by decide))).mpr (by decide +kernel)

/-- Both numbers are called `x_v`, and the second is taken for a duplicate. -/
theorem two_speeds_collide :
    ¬∀ (f : Feed) (deviceName : String) (timestampMs : ℤ) (data : Json), GenericMessage data →
      KeepsIdentity f deviceName timestampMs data := by
  intro hclaim
  obtain ⟨keyOf,hcalls,hkeys⟩ := hclaim plant "press" 0 (twoLines "v" "v")
    (twoLines_generic (by decide) (by decide))
  have hleaves : leaves plant [] (twoLines "v" "v") =
      [⟨["a","x","v"],none,1⟩,⟨["b","x","v"],none,2⟩] := rfl
  have hone : (processBatch plant [twoLines "v" "v"] "press" 0).length = 1 := by decide +kernel
  obtain ⟨p,hp⟩ := List.length_eq_one_iff.mp hone
  rw [hleaves, hp] at hcalls
  rw [hleaves] at hkeys
  obtain ⟨q,hq,hfirst,-⟩ := hcalls ⟨["a","x","v"],none,1⟩ (by simp)
  obtain ⟨r,hr,hsecond,-⟩ := hcalls ⟨["b","x","v"],none,2⟩ (by simp)
  rw [List.mem_singleton] at hq hr
  refine hkeys ⟨["a","x","v"],none,1⟩ (by simp) ⟨["b","x","v"],none,2⟩ (by simp) (by decide) ?_
  rw [← hfirst, ← hsecond, hq, hr]

end Iotistica.MetricIdentity
