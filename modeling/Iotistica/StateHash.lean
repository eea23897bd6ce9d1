import Iotistica.EntryRows
import Iotistica.NormalizedText
import Iotistica.TargetMerge
import Mathlib.Data.List.Pairwise
import Mathlib.Data.String.Basic

/-!
# The hash of a state

Before its text is made, a state is copied, its apps are ordered by the
numbers of their names, and two arrays of its configuration by the id, the
name or the text of their items. The text is that of the normalized value,
which has no members named `__proto__`: two states have the same text exactly
if they are equal without these, up to the order of members and of the two
arrays.
-/

set_option autoImplicit false

namespace Iotistica.StateHash
open Iotistica Iotistica.JsonText Iotistica.JsonDoubles
open Iotistica.StableText hiding stableStringify stableStringify_inj
open Iotistica.NormalizedText
open Iotistica.EntryRows (toText itemTexts)
open Iotistica.TargetMerge (spread)

/-- What the language gives: `String(Number(key))`, whether `Number(a) - Number(b)`
is at most zero, and `localeCompare`, which orders all strings. -/
structure Runtime where
  stringOfNumber : String → String
  numberLe : String → String → Bool
  localeCompare : String → String → ℤ
  swap : ∀ a b, localeCompare a b ≤ 0 ↔ 0 ≤ localeCompare b a
  trans : ∀ a b c, localeCompare a b ≤ 0 → localeCompare b c ≤ 0 → localeCompare a c ≤ 0
  eq_of_zero : ∀ a b, localeCompare a b = 0 → a = b

/-- `none` if the conversion to a string throws. -/
def getComparableKey (val : Value) : Option String :=
  match member val "id" with
  | some id => toText id
  | none =>
    match member val "name" with
    | some name => toText name
    | none => some (stableStringify val)

section Text
variable (rt : Runtime)

abbrev comparableLe (a b : Value) : Prop :=
  rt.localeCompare ((getComparableKey a).getD "") ((getComparableKey b).getD "") ≤ 0

def sortArrayStably (arr : List Value) : Option (List Value) :=
  if arr.length ≤ 1 then some arr
  else if arr.all (fun val => (getComparableKey val).isSome) then
    some (arr.insertionSort (comparableLe rt))
  else none

def sortedApps (apps : Members) : Members :=
  collect (((apps.map Prod.fst).insertionSort (fun a b => rt.numberLe a b = true)).filterMap
    (fun key => (apps.lookup (rt.stringOfNumber key)).map (fun app => (rt.stringOfNumber key,app))))

def sortApps (state : Members) : Members :=
  match state.lookup "apps" with
  | some apps =>
    if truthy apps then OrderedMap.assign "apps" (.obj (sortedApps rt (spread apps))) state
    else state
  | none => state

def sortUnder (key : String) (cfg : Members) : Option Members :=
  match cfg.lookup key with
  | some (.arr items) =>
    (sortArrayStably rt items).map (fun items => OrderedMap.assign key (.arr items) cfg)
  | _ => some cfg

def canonicalizeState (state : Members) : Option Members :=
  let clone := sortApps rt state
  match clone.lookup "config" with
  | some (.obj cfg) =>
    ((sortUnder rt "endpoints" cfg).bind (sortUnder rt "protocols")).map
      (fun cfg => OrderedMap.assign "config" (.obj cfg) clone)
  | _ => some clone

def hashedText (state : Members) : Option String :=
  (canonicalizeState rt state).map (fun canonical => stableStringify (.obj canonical))

def getStateHash (sha256 : String → String) (state : Members) : Option String :=
  (hashedText rt state).map sha256

end Text

def DistinctKeys (items : List Value) : Prop :=
  items.Pairwise (fun a b =>
    ∃ x y, getComparableKey a = some x ∧ getComparableKey b = some y ∧ x ≠ y)

/-- The ids of the apps are the texts of numbers, as those of all integers
are. Numbers are finite. -/
structure AgentState (rt : Runtime) where
  members : Members
  proper : Proper (.obj members)
  apps : ∀ v, members.lookup "apps" = some v → truthy v = true →
    ∃ apps, v = .obj apps ∧ ∀ key ∈ apps.map Prod.fst, rt.stringOfNumber key = key
  arrays : ∀ cfg, members.lookup "config" = some (.obj cfg) →
    ∀ key, key = "endpoints" ∨ key = "protocols" →
      ∀ items, cfg.lookup key = some (.arr items) → DistinctKeys items

def SameArray (v w : Value) : Prop :=
  match v, w with
  | .arr vs, .arr ws => ∃ held : List Value, held.Perm ws ∧ SameItems exactDoubles vs held
  | v, w => SameValue v w

def SameSetting (key : String) : Value → Value → Prop :=
  if key = "endpoints" ∨ key = "protocols" then SameArray else SameValue

def SameConfig (v w : Value) : Prop :=
  match v, w with
  | .obj ms, .obj ns => ∀ key, Option.Rel (SameSetting key) (ms.lookup key) (ns.lookup key)
  | v, w => SameValue v w

def SameField (key : String) : Value → Value → Prop :=
  if key = "config" then SameConfig else SameValue

/-- Equal up to the order of members and of the two arrays. -/
def SameState (s t : Members) : Prop :=
  ∀ key, Option.Rel (SameField key) (s.lookup key) (t.lookup key)

def itemText (v : Value) : Option String :=
  match v with
  | .null => some ""
  | v => toText v

theorem itemTexts_cons (v : Value) (vs : List Value) :
    itemTexts (v :: vs) =
      (itemText v).bind (fun text => (itemTexts vs).map (fun texts => text :: texts)) := by
  cases v <;> rfl

mutual
theorem toText_normalizeValue : ∀ {v : Value}, Proper v → toText (normalizeValue v) = toText v
  | .null, _ => rfl
  | .bool _, _ => rfl
  | .num _, _ => rfl
  | .str _, _ => rfl
  | .arr items, h => by
    rw [Proper] at h
    rw [normalizeValue, toText, toText, itemTexts_normalizeItems h]
  | .obj members, h => by
    have hown := member_normalizeValue h (show "toString" ≠ "__proto__" by decide)
    rw [normalizeValue] at hown ⊢
    rw [member, member] at hown
    rw [toText, toText, hown, Option.isSome_map]

theorem itemTexts_normalizeItems : ∀ {vs : List Value}, ProperItems vs →
    itemTexts (normalizeItems vs) = itemTexts vs
  | [], _ => rfl
  | v :: vs, h => by
    have hitem : itemText (normalizeValue v) = itemText v := by
      have htext := toText_normalizeValue h.1
      cases v <;> first | rfl | exact htext
    rw [normalizeItems, itemTexts_cons, itemTexts_cons, hitem, itemTexts_normalizeItems h.2]
end

theorem proper_member {v w : Value} {key : String} (h : Proper v) (hw : member v key = some w) :
    Proper w := by
  cases v with
  | obj members =>
    rw [Proper] at h
    exact (properMembers_iff _).mp h.2 _ (OrderedMap.mem_of_lookup members hw)
  | _ => cases hw

theorem getComparableKey_normalizeValue {v : Value} (h : Proper v) :
    getComparableKey (normalizeValue v) = getComparableKey v := by
  unfold getComparableKey
  rw [member_normalizeValue h (show "id" ≠ "__proto__" by decide),
    member_normalizeValue h (show "name" ≠ "__proto__" by decide)]
  cases hid : member v "id" with
  | some id => exact toText_normalizeValue (proper_member h hid)
  | none =>
    cases hname : member v "name" with
    | some name => exact toText_normalizeValue (proper_member h hname)
    | none =>
      have htwice := (stableStringify_inj (proper_normalizeValue h) h).mpr (normalizeValue_twice h)
      exact congrArg some htwice

theorem distinctKeys_some {a b : Value} {items : List Value} (h : DistinctKeys (a :: b :: items)) :
    ∀ v ∈ a :: b :: items, (getComparableKey v).isSome = true := by
  have hfirst := (List.pairwise_cons.mp h).1
  intro v hv
  rcases List.mem_cons.mp hv with rfl | hv
  · obtain ⟨x,y,hx,_⟩ := hfirst b List.mem_cons_self
    rw [hx]
    rfl
  · obtain ⟨x,y,_,hy,_⟩ := hfirst v hv
    rw [hy]
    rfl

section Sorting
variable (rt : Runtime)

instance : Std.Total (comparableLe rt) where
  total a b := by
    rcases le_total (rt.localeCompare ((getComparableKey a).getD "")
      ((getComparableKey b).getD "")) 0 with h | h
    · exact .inl h
    · exact .inr ((rt.swap _ _).mpr h)

instance : IsTrans Value (comparableLe rt) where
  trans _ _ _ hab hbc := rt.trans _ _ _ hab hbc

theorem sortArrayStably_eq {items : List Value} (h : DistinctKeys items) :
    sortArrayStably rt items = some (items.insertionSort (comparableLe rt)) := by
  match items with
  | [] => rfl
  | [v] => rfl
  | a :: b :: items =>
    rw [sortArrayStably, if_neg (by simp), if_pos]
    exact List.all_eq_true.mpr (distinctKeys_some h)

theorem eq_of_comparable {items : List Value} (h : DistinctKeys items) {a b : Value}
    (ha : a ∈ items) (hb : b ∈ items) (hab : comparableLe rt a b) (hba : comparableLe rt b a) :
    a = b := by
  by_contra hne
  have hsymm : Std.Symm (fun a b : Value =>
      ∃ x y, getComparableKey a = some x ∧ getComparableKey b = some y ∧ x ≠ y) :=
    ⟨fun _ _ ⟨x,y,hx,hy,hxy⟩ => ⟨y,x,hy,hx,hxy.symm⟩⟩
  obtain ⟨x,y,hx,hy,hxy⟩ := h.forall ha hb hne
  have hge := (rt.swap _ _).mp hba
  rw [comparableLe, hx, hy] at hab
  rw [hx, hy] at hge
  exact hxy (rt.eq_of_zero x y (le_antisymm hab hge))

theorem sort_eq_of_perm {vs ws : List Value} (h : DistinctKeys ws) (hperm : vs.Perm ws) :
    vs.insertionSort (comparableLe rt) = ws.insertionSort (comparableLe rt) := by
  have hsort := List.pairwise_insertionSort (comparableLe rt)
  have hto : ∀ us : List Value, (us.insertionSort (comparableLe rt)).Perm us :=
    List.perm_insertionSort _
  refine List.Perm.eq_of_pairwise ?_ (hsort vs) (hsort ws) ?_
  · intro a b ha hb hab hba
    have ha' := hperm.mem_iff.mp ((hto vs).mem_iff.mp ha)
    exact eq_of_comparable rt h ha' ((hto ws).mem_iff.mp hb) hab hba
  · exact (hto vs).trans (hperm.trans (hto ws).symm)

theorem map_sort {vs : List Value} (h : ∀ v ∈ vs, Proper v) :
    (vs.insertionSort (comparableLe rt)).map normalizeValue =
      (vs.map normalizeValue).insertionSort (comparableLe rt) := by
  apply List.map_insertionSort
  intro a ha b hb
  rw [comparableLe, comparableLe, getComparableKey_normalizeValue (h a ha),
    getComparableKey_normalizeValue (h b hb)]

theorem distinctKeys_normalized {vs : List Value} (h : ∀ v ∈ vs, Proper v)
    (hkeys : DistinctKeys vs) : DistinctKeys (vs.map normalizeValue) := by
  rw [DistinctKeys, List.pairwise_map]
  refine hkeys.imp_of_mem fun ha hb hab => ?_
  rw [getComparableKey_normalizeValue (h _ ha), getComparableKey_normalizeValue (h _ hb)]
  exact hab

/-- Sorted, two arrays print the same exactly if one is a rearrangement of the
other once their items are normalized. -/
theorem sorted_iff {vs ws : List Value} (hvs : ∀ v ∈ vs, Proper v) (hws : ∀ w ∈ ws, Proper w)
    (hkeys : DistinctKeys ws) :
    (vs.insertionSort (comparableLe rt)).map normalizeValue =
        (ws.insertionSort (comparableLe rt)).map normalizeValue ↔
      (vs.map normalizeValue).Perm (ws.map normalizeValue) := by
  rw [map_sort rt hvs, map_sort rt hws]
  constructor
  · intro h
    exact (List.perm_insertionSort (comparableLe rt) _).symm.trans
      (h ▸ List.perm_insertionSort (comparableLe rt) _)
  · exact sort_eq_of_perm rt (distinctKeys_normalized hws hkeys)

end Sorting

def keyed (f : String → Value → Value) (ms : Members) : Members :=
  ms.map (fun m => (m.1,f m.1 m.2))

def under (key : String) (f : Value → Value) (k : String) (v : Value) : Value :=
  if k = key then f v else v

theorem map_fst_keyed (f : String → Value → Value) (ms : Members) :
    (keyed f ms).map Prod.fst = ms.map Prod.fst := by
  rw [keyed, List.map_map]
  rfl

theorem lookup_keyed (f : String → Value → Value) (ms : Members) (key : String) :
    (keyed f ms).lookup key = (ms.lookup key).map (f key) := by
  induction ms with
  | nil => rfl
  | cons m ms ih =>
    rw [keyed, List.map_cons, List.lookup_cons, List.lookup_cons]
    cases hkey : key == m.1 with
    | true =>
      rw [beq_iff_eq.mp hkey]
      rfl
    | false => exact ih

theorem lookup_keyed_under (f : Value → Value) (ms : Members) {key k : String} (h : k ≠ key) :
    (keyed (under key f) ms).lookup k = ms.lookup k := by
  rw [lookup_keyed, show under key f k = id from funext fun v => if_neg h, Option.map_id, id]

theorem keyed_keyed (f g : String → Value → Value) (ms : Members) :
    keyed g (keyed f ms) = keyed (fun k v => g k (f k v)) ms := by
  rw [keyed, keyed, List.map_map]
  rfl

theorem assign_eq_keyed {ms : Members} {key : String} {v : Value} (f : Value → Value)
    (hn : (ms.map Prod.fst).Nodup) (h : ms.lookup key = some v) :
    OrderedMap.assign key (f v) ms = keyed (under key f) ms := by
  apply List.map_congr_left
  intro m hm
  unfold under
  split
  · rename_i hkey
    have hlookup := OrderedMap.lookup_of_mem ms hn hm
    rw [hkey, h] at hlookup
    rw [hkey, Option.some.inj hlookup]
  · rfl

theorem keyed_under_eq {ms : Members} {key : String} {f : Value → Value}
    (hn : (ms.map Prod.fst).Nodup) (h : ∀ v, ms.lookup key = some v → f v = v) :
    keyed (under key f) ms = ms := by
  refine (List.map_congr_left fun m hm => ?_).trans (List.map_id _)
  unfold under
  split
  · rename_i hkey
    rw [h m.2 (hkey ▸ OrderedMap.lookup_of_mem ms hn hm)]
    rfl
  · rfl

section Sorted
variable (rt : Runtime)

def sorted (v : Value) : Value :=
  match v with
  | .arr items => .arr (items.insertionSort (comparableLe rt))
  | v => v

def sortedSetting (key : String) (v : Value) : Value :=
  under "protocols" (sorted rt) key (under "endpoints" (sorted rt) key v)

def sortedConfig (v : Value) : Value :=
  match v with
  | .obj cfg => .obj (keyed (sortedSetting rt) cfg)
  | v => v

def sortedAppsOf (v : Value) : Value :=
  if truthy v then .obj (sortedApps rt (spread v)) else v

def sortedField (key : String) (v : Value) : Value :=
  under "config" (sortedConfig rt) key (under "apps" (sortedAppsOf rt) key v)

theorem sortUnder_eq {key : String} {cfg : Members} (hn : (cfg.map Prod.fst).Nodup)
    (h : ∀ items, cfg.lookup key = some (.arr items) → DistinctKeys items) :
    sortUnder rt key cfg = some (keyed (under key (sorted rt)) cfg) := by
  unfold sortUnder
  split
  · rename_i items hitems
    rw [sortArrayStably_eq rt (h items hitems), Option.map_some,
      ← assign_eq_keyed (sorted rt) hn hitems]
    rfl
  · rename_i hother
    rw [keyed_under_eq hn]
    intro v hv
    cases v with
    | arr items => exact absurd hv (hother items)
    | _ => rfl

theorem sortApps_eq {state : Members} (hn : (state.map Prod.fst).Nodup) :
    sortApps rt state = keyed (under "apps" (sortedAppsOf rt)) state := by
  unfold sortApps
  split
  · rename_i apps happs
    split
    · rename_i htruthy
      rw [← assign_eq_keyed (sortedAppsOf rt) hn happs, sortedAppsOf, if_pos htruthy]
    · rename_i hfalsy
      refine (keyed_under_eq hn fun v hv => ?_).symm
      obtain rfl := Option.some.inj (happs.symm.trans hv)
      exact if_neg hfalsy
  · rename_i hnone
    rw [keyed_under_eq hn (fun v hv => by rw [hnone] at hv; cases hv)]

variable {rt}

theorem AgentState.nodup (s : AgentState rt) : (s.members.map Prod.fst).Nodup := by
  have h := s.proper
  rw [Proper] at h
  exact h.1

theorem AgentState.proper_field (s : AgentState rt) {key : String} {v : Value}
    (h : s.members.lookup key = some v) : Proper v :=
  proper_member (v := .obj s.members) s.proper h

theorem canonicalizeState_eq (s : AgentState rt) :
    canonicalizeState rt s.members = some (keyed (sortedField rt) s.members) := by
  have happs : (sortApps rt s.members).lookup "config" = s.members.lookup "config" := by
    rw [sortApps_eq rt s.nodup, lookup_keyed_under _ _ (by decide)]
  have hnodup : ((sortApps rt s.members).map Prod.fst).Nodup := by
    rw [sortApps_eq rt s.nodup, map_fst_keyed]
    exact s.nodup
  have hfield : keyed (sortedField rt) s.members =
      keyed (under "config" (sortedConfig rt)) (sortApps rt s.members) := by
    rw [sortApps_eq rt s.nodup, keyed_keyed]
    rfl
  rw [hfield, canonicalizeState]
  split
  · rename_i cfg hcfg
    have hproper := s.proper_field (happs ▸ hcfg)
    rw [Proper] at hproper
    have harrays := s.arrays cfg (happs ▸ hcfg)
    have hfirst := sortUnder_eq rt hproper.1 (harrays "endpoints" (.inl rfl))
    have hsecond : sortUnder rt "protocols" (keyed (under "endpoints" (sorted rt)) cfg) =
        some (keyed (sortedSetting rt) cfg) := by
      rw [sortUnder_eq, keyed_keyed]
      · rfl
      · rw [map_fst_keyed]
        exact hproper.1
      · intro items hitems
        rw [lookup_keyed_under _ _ (by decide)] at hitems
        exact harrays "protocols" (.inr rfl) items hitems
    rw [hfirst, Option.bind_some, hsecond, Option.map_some,
      ← assign_eq_keyed (sortedConfig rt) hnodup hcfg]
    rfl
  · rename_i hother
    rw [keyed_under_eq hnodup]
    intro v hv
    cases v with
    | obj cfg => exact absurd hv (hother cfg)
    | _ => rfl

theorem map_eq_iff_rel {R : Value → Value → Prop} {f : Value → Value} {a b : Option Value}
    (h : ∀ v w, a = some v → b = some w → (f v = f w ↔ R (drop v) (drop w))) :
    a.map f = b.map f ↔ Option.Rel R (a.map drop) (b.map drop) := by
  cases a with
  | none =>
    cases b with
    | none => exact ⟨fun _ => .none,fun _ => rfl⟩
    | some w =>
      constructor
      · intro heq
        cases heq
      · intro hrel
        cases hrel
  | some v =>
    cases b with
    | none =>
      constructor
      · intro heq
        cases heq
      · intro hrel
        cases hrel
    | some w =>
      have hvw := h v w rfl rfl
      constructor
      · intro heq
        exact .some (hvw.mp (Option.some.inj heq))
      · intro hrel
        cases hrel with
        | some hsame => exact congrArg some (hvw.mpr hsame)

theorem keyed_iff {R : String → Value → Value → Prop} {f : String → Value → Value}
    {ms ns : Members} (hm : (ms.map Prod.fst).Nodup) (hn : (ns.map Prod.fst).Nodup)
    (h : ∀ key v w, ms.lookup key = some v → ns.lookup key = some w →
      (normalizeValue (f key v) = normalizeValue (f key w) ↔ R key (drop v) (drop w))) :
    normalizeValue (.obj (keyed f ms)) = normalizeValue (.obj (keyed f ns)) ↔
      ∀ key, Option.Rel (R key) ((dropMembers ms).lookup key) ((dropMembers ns).lookup key) := by
  rw [← map_fst_keyed f] at hm hn
  rw [normalizeValue_obj_iff hm hn]
  have hkey : ∀ key, key ≠ "__proto__" →
      (((keyed f ms).lookup key).map normalizeValue = ((keyed f ns).lookup key).map normalizeValue ↔
        Option.Rel (R key) ((dropMembers ms).lookup key) ((dropMembers ns).lookup key)) := by
    intro key hkey
    rw [lookup_keyed, lookup_keyed, Option.map_map, Option.map_map, lookup_dropMembers ms hkey,
      lookup_dropMembers ns hkey]
    exact map_eq_iff_rel (h key)
  constructor
  · intro heq key
    by_cases hproto : key = "__proto__"
    · rw [hproto, lookup_dropMembers_prototype, lookup_dropMembers_prototype]
      exact .none
    · exact (hkey key hproto).mp (heq key hproto)
  · intro hrel key hproto
    exact (hkey key hproto).mpr (hrel key)

theorem normalizeValue_arr_iff {vs ws : List Value} :
    normalizeValue (.arr vs) = normalizeValue (.arr ws) ↔
      vs.map normalizeValue = ws.map normalizeValue := by
  rw [normalizeValue, normalizeValue, normalizeItems_eq, normalizeItems_eq, Value.arr.injEq]

/-- Up to their order the normalized items are the items without prototypes
up to the order of members. -/
theorem sameArray_iff {vs ws : List Value} (hvs : ProperItems vs) (hws : ProperItems ws) :
    SameArray (drop (.arr vs)) (drop (.arr ws)) ↔
      (vs.map normalizeValue).Perm (ws.map normalizeValue) := by
  have hmap : ∀ us : List Value, us.map normalizeValue = (dropItems us).map canonical := by
    intro us
    rw [dropItems_eq, List.map_map]
    exact List.map_congr_left fun u _ => normalizeValue_eq u
  rw [hmap, hmap, drop, drop, SameArray]
  constructor
  · rintro ⟨held,hperm,hsame⟩
    have hheld : ProperItems held := by
      have hall := (properItems_iff _).mp (proper_dropItems hws)
      exact (properItems_iff _).mpr fun v hv => hall v (hperm.mem_iff.mp hv)
    have hcanonical := canonicalItems_of_same (proper_dropItems hvs) hheld hsame
    rw [canonicalItems_eq, canonicalItems_eq] at hcanonical
    rw [hcanonical]
    exact hperm.map canonical
  · intro hperm
    obtain ⟨held,hheld,hcanonical⟩ := exists_perm_of_map_perm hperm
    refine ⟨held,hheld,sameItems_of_canonical ?_⟩
    rw [canonicalItems_eq, canonicalItems_eq, hcanonical]

theorem sorted_same_iff {v w : Value} (hv : Proper v) (hw : Proper w)
    (hkeys : ∀ items, w = .arr items → DistinctKeys items) :
    normalizeValue (sorted rt v) = normalizeValue (sorted rt w) ↔ SameArray (drop v) (drop w) := by
  cases v with
  | arr vs =>
    cases w with
    | arr ws =>
      rw [Proper] at hv hw
      rw [sameArray_iff hv hw, sorted, sorted, normalizeValue_arr_iff]
      exact sorted_iff rt ((properItems_iff vs).mp hv) ((properItems_iff ws).mp hw) (hkeys ws rfl)
    | _ => simp [sorted, normalizeValue, drop, SameArray, SameValue, Same]
  | _ =>
    cases w with
    | arr ws => simp [sorted, normalizeValue, drop, SameArray, SameValue, Same]
    | _ => exact normalizeValue_inj hv hw

theorem setting_iff {key : String} {v w : Value} (hv : Proper v) (hw : Proper w)
    (hkeys : key = "endpoints" ∨ key = "protocols" →
      ∀ items, w = .arr items → DistinctKeys items) :
    normalizeValue (sortedSetting rt key v) = normalizeValue (sortedSetting rt key w) ↔
      SameSetting key (drop v) (drop w) := by
  unfold sortedSetting under SameSetting
  by_cases hprotocols : key = "protocols"
  · have hendpoints : key ≠ "endpoints" := by
      rw [hprotocols]
      decide
    rw [if_pos hprotocols, if_pos hprotocols, if_neg hendpoints, if_neg hendpoints,
      if_pos (.inr hprotocols)]
    exact sorted_same_iff hv hw (hkeys (.inr hprotocols))
  · rw [if_neg hprotocols, if_neg hprotocols]
    by_cases hendpoints : key = "endpoints"
    · rw [if_pos hendpoints, if_pos hendpoints, if_pos (.inl hendpoints)]
      exact sorted_same_iff hv hw (hkeys (.inl hendpoints))
    · rw [if_neg hendpoints, if_neg hendpoints, if_neg (not_or.mpr ⟨hendpoints,hprotocols⟩)]
      exact normalizeValue_inj hv hw

theorem config_iff {v w : Value} (hv : Proper v) (hw : Proper w)
    (hkeys : ∀ cfg, w = .obj cfg → ∀ key, key = "endpoints" ∨ key = "protocols" →
      ∀ items, cfg.lookup key = some (.arr items) → DistinctKeys items) :
    normalizeValue (sortedConfig rt v) = normalizeValue (sortedConfig rt w) ↔
      SameConfig (drop v) (drop w) := by
  cases v with
  | obj ms =>
    cases w with
    | obj ns =>
      have hproper := fun (es : Members) (h : Proper (.obj es)) (key : String) (x : Value)
        (hx : es.lookup key = some x) => proper_member (v := .obj es) h hx
      rw [drop, drop, SameConfig, sortedConfig, sortedConfig]
      have hms := hv
      have hns := hw
      rw [Proper] at hms hns
      refine keyed_iff hms.1 hns.1 fun key x y hx hy => ?_
      refine setting_iff (hproper ms hv key x hx) (hproper ns hw key y hy) ?_
      intro hkey items hitems
      exact hkeys ns rfl key hkey items (hitems ▸ hy)
    | _ => simp [sortedConfig, normalizeValue, drop, SameConfig, SameValue, Same]
  | _ =>
    cases w with
    | obj ns => simp [sortedConfig, normalizeValue, drop, SameConfig, SameValue, Same]
    | _ => exact normalizeValue_inj hv hw

theorem sortedApps_perm {apps : Members} (hn : (apps.map Prod.fst).Nodup)
    (h : ∀ key ∈ apps.map Prod.fst, rt.stringOfNumber key = key) :
    (sortedApps rt apps).Perm apps := by
  have hname : ∀ key ∈ apps.map Prod.fst,
      (apps.lookup (rt.stringOfNumber key)).map (fun app => (rt.stringOfNumber key,app)) =
        (apps.lookup key).map (fun app => (key,app)) := by
    intro key hkey
    rw [h key hkey]
  have happs : (apps.map Prod.fst).filterMap (fun key =>
      (apps.lookup (rt.stringOfNumber key)).map (fun app => (rt.stringOfNumber key,app))) =
        apps := by
    rw [List.filterMap_congr hname, List.filterMap_map]
    have hsome : ∀ m ∈ apps, (((fun key => (apps.lookup key).map (fun app => (key,app))) ∘
        Prod.fst) m) = some m := by
      intro m hm
      rw [Function.comp, OrderedMap.lookup_of_mem apps hn hm, Option.map_some]
    rw [List.filterMap_congr hsome, List.filterMap_some]
  have hperm := (List.perm_insertionSort (fun a b => rt.numberLe a b = true)
    (apps.map Prod.fst)).filterMap (fun key =>
      (apps.lookup (rt.stringOfNumber key)).map (fun app => (rt.stringOfNumber key,app)))
  rw [happs] at hperm
  have hnodup := (hperm.map Prod.fst).nodup_iff.mpr hn
  have hcollect := OrderedMap.entries_assignAll OrderedMap.empty _ hnodup
    (fun _ _ hj => by cases hj)
  rw [sortedApps, collect, hcollect]
  exact hperm

theorem normalizeValue_perm {ms ns : Members} (hn : (ns.map Prod.fst).Nodup) (h : ms.Perm ns) :
    normalizeValue (.obj ms) = normalizeValue (.obj ns) := by
  rw [normalizeValue_obj_iff ((h.map Prod.fst).nodup_iff.mpr hn) hn]
  intro key _
  rw [lookup_of_perm hn h]

theorem AgentState.normalize_apps (s : AgentState rt) {v : Value}
    (h : s.members.lookup "apps" = some v) :
    normalizeValue (sortedAppsOf rt v) = normalizeValue v := by
  unfold sortedAppsOf
  split
  · rename_i htruthy
    obtain ⟨apps,rfl,hkeys⟩ := s.apps v h htruthy
    have hproper := s.proper_field h
    rw [Proper] at hproper
    exact normalizeValue_perm hproper.1 (sortedApps_perm hproper.1 hkeys)
  · rfl

theorem field_iff (s t : AgentState rt) {key : String} {v w : Value}
    (hv : s.members.lookup key = some v) (hw : t.members.lookup key = some w) :
    normalizeValue (sortedField rt key v) = normalizeValue (sortedField rt key w) ↔
      SameField key (drop v) (drop w) := by
  unfold sortedField under SameField
  by_cases hconfig : key = "config"
  · subst hconfig
    rw [if_pos rfl, if_pos rfl, if_neg (by decide), if_neg (by decide), if_pos rfl]
    refine config_iff (s.proper_field hv) (t.proper_field hw) fun cfg hcfg => ?_
    exact t.arrays cfg (hcfg ▸ hw)
  · rw [if_neg hconfig, if_neg hconfig, if_neg hconfig]
    by_cases happs : key = "apps"
    · subst happs
      rw [if_pos rfl, if_pos rfl, s.normalize_apps hv, t.normalize_apps hw]
      exact normalizeValue_inj (s.proper_field hv) (t.proper_field hw)
    · rw [if_neg happs, if_neg happs]
      exact normalizeValue_inj (s.proper_field hv) (t.proper_field hw)

theorem proper_keyed {f : String → Value → Value} {ms : Members} (h : Proper (.obj ms))
    (hf : ∀ key v, ms.lookup key = some v → Proper (f key v)) : Proper (.obj (keyed f ms)) := by
  rw [Proper] at h ⊢
  rw [map_fst_keyed, properMembers_iff]
  refine ⟨h.1,fun m hm => ?_⟩
  obtain ⟨n,hn,rfl⟩ := List.mem_map.mp hm
  exact hf n.1 n.2 (OrderedMap.lookup_of_mem ms h.1 hn)

theorem proper_sorted {v : Value} (h : Proper v) : Proper (sorted rt v) := by
  cases v with
  | arr items =>
    rw [Proper, properItems_iff] at h
    rw [sorted, Proper, properItems_iff]
    exact fun v hv => h v ((List.perm_insertionSort _ items).mem_iff.mp hv)
  | _ => exact h

theorem proper_under {f : Value → Value} {key k : String} {v : Value} (hf : Proper (f v))
    (h : Proper v) : Proper (under key f k v) := by
  unfold under
  split
  · exact hf
  · exact h

theorem proper_sortedConfig {v : Value} (h : Proper v) : Proper (sortedConfig rt v) := by
  cases v with
  | obj cfg =>
    refine proper_keyed h fun key v hv => ?_
    have hmember := proper_member (v := .obj cfg) h hv
    have hfirst : Proper (under "endpoints" (sorted rt) key v) :=
      proper_under (proper_sorted hmember) hmember
    exact proper_under (proper_sorted hfirst) hfirst
  | _ => exact h

theorem AgentState.proper_apps (s : AgentState rt) {v : Value}
    (h : s.members.lookup "apps" = some v) : Proper (sortedAppsOf rt v) := by
  unfold sortedAppsOf
  split
  · rename_i htruthy
    obtain ⟨apps,rfl,hkeys⟩ := s.apps v h htruthy
    have hproper := s.proper_field h
    rw [Proper] at hproper
    have hperm := sortedApps_perm hproper.1 hkeys
    rw [Proper, properMembers_iff]
    refine ⟨(hperm.map Prod.fst).nodup_iff.mpr hproper.1,fun m hm => ?_⟩
    exact (properMembers_iff _).mp hproper.2 m (hperm.mem_iff.mp hm)
  · exact s.proper_field h

theorem AgentState.proper_canonical (s : AgentState rt) :
    Proper (.obj (keyed (sortedField rt) s.members)) := by
  refine proper_keyed s.proper fun key v hv => ?_
  have happs : Proper (under "apps" (sortedAppsOf rt) key v) := by
    unfold under
    split
    · rename_i hkey
      exact s.proper_apps (hkey ▸ hv)
    · exact s.proper_field hv
  exact proper_under (proper_sortedConfig happs) happs

theorem hashedText_eq (s : AgentState rt) : hashedText rt s.members =
    some (stableStringify (.obj (keyed (sortedField rt) s.members))) := by
  rw [hashedText, canonicalizeState_eq, Option.map_some]

theorem sameText_iff (s t : AgentState rt) :
    (∃ text, hashedText rt s.members = some text ∧ hashedText rt t.members = some text) ↔
      SameState (dropMembers s.members) (dropMembers t.members) := by
  have htexts :
      (∃ text, hashedText rt s.members = some text ∧ hashedText rt t.members = some text) ↔
      normalizeValue (.obj (keyed (sortedField rt) s.members)) =
        normalizeValue (.obj (keyed (sortedField rt) t.members)) := by
    rw [← stableStringify_inj s.proper_canonical t.proper_canonical, hashedText_eq, hashedText_eq]
    constructor
    · rintro ⟨text,hs,ht⟩
      exact Option.some.inj (hs.trans ht.symm)
    · intro heq
      exact ⟨_,rfl,congrArg some heq.symm⟩
  rw [htexts]
  exact keyed_iff s.nodup t.nodup fun key v w hv hw => field_iff s t hv hw

end Sorted

theorem sameArray_drop {v w : Value} (h : SameArray v w) : SameArray (drop v) (drop w) := by
  cases v with
  | arr vs =>
    cases w with
    | arr ws =>
      obtain ⟨held,hperm,hsame⟩ := h
      refine ⟨dropItems held,?_,same_dropItems hsame⟩
      rw [dropItems_eq, dropItems_eq]
      exact hperm.map drop
    | _ => exact same_drop h
  | _ => exact same_drop h

theorem rel_drop {R : Value → Value → Prop} (hR : ∀ v w, R v w → R (drop v) (drop w))
    {ms ns : Members} {key : String} (h : Option.Rel R (ms.lookup key) (ns.lookup key)) :
    Option.Rel R ((dropMembers ms).lookup key) ((dropMembers ns).lookup key) := by
  by_cases hkey : key = "__proto__"
  · rw [hkey, lookup_dropMembers_prototype, lookup_dropMembers_prototype]
    exact .none
  · rw [lookup_dropMembers ms hkey, lookup_dropMembers ns hkey]
    generalize ms.lookup key = held at h ⊢
    generalize ns.lookup key = other at h ⊢
    cases h with
    | some hsame => exact .some (hR _ _ hsame)
    | none => exact .none

theorem ite_drop {c : Prop} [Decidable c] {R S : Value → Value → Prop}
    (hR : ∀ v w, R v w → R (drop v) (drop w)) (hS : ∀ v w, S v w → S (drop v) (drop w))
    (v w : Value) (h : (if c then R else S) v w) : (if c then R else S) (drop v) (drop w) := by
  by_cases hc : c
  · rw [if_pos hc] at h ⊢
    exact hR v w h
  · rw [if_neg hc] at h ⊢
    exact hS v w h

theorem sameSetting_drop (key : String) (v w : Value) (h : SameSetting key v w) :
    SameSetting key (drop v) (drop w) :=
  ite_drop (R := SameArray) (S := SameValue) (fun _ _ => sameArray_drop)
    (fun _ _ => same_drop) v w h

theorem sameConfig_drop {v w : Value} (h : SameConfig v w) : SameConfig (drop v) (drop w) := by
  cases v with
  | obj ms =>
    cases w with
    | obj ns =>
      intro key
      exact rel_drop (sameSetting_drop key) (h key)
    | _ => exact same_drop h
  | _ => exact same_drop h

theorem sameField_drop (key : String) (v w : Value) (h : SameField key v w) :
    SameField key (drop v) (drop w) :=
  ite_drop (R := SameConfig) (S := SameValue) (fun _ _ => sameConfig_drop)
    (fun _ _ => same_drop) v w h

theorem sameState_drop {s t : Members} (h : SameState s t) :
    SameState (dropMembers s) (dropMembers t) := by
  intro key
  exact rel_drop (sameField_drop key) (h key)

/-- The text identifies two states exactly if they do not differ in members
named `__proto__` alone. -/
theorem text_identifies_iff (rt : Runtime) (s t : AgentState rt) :
    ((∃ text, hashedText rt s.members = some text ∧ hashedText rt t.members = some text) ↔
        SameState s.members t.members) ↔
      (SameState (dropMembers s.members) (dropMembers t.members) →
        SameState s.members t.members) := by
  rw [sameText_iff]
  constructor
  · intro h
    exact h.mp
  · intro h
    exact ⟨h,sameState_drop⟩

/-- Strings by their characters. -/
def byCharacters : Runtime where
  stringOfNumber := id
  numberLe a b := decide (a ≤ b)
  localeCompare a b := if a < b then -1 else if a = b then 0 else 1
  swap a b := by
    rcases lt_trichotomy a b with h | h | h
    · simp [h, h.not_gt, h.ne']
    · simp [h]
    · simp [h, h.not_gt, h.ne']
  trans a b c hab hbc := by
    have hle : ∀ x y : String,
        (if x < y then (-1 : ℤ) else if x = y then 0 else 1) ≤ 0 → x ≤ y := by
      intro x y h
      by_contra hlt
      have hlt := not_le.mp hlt
      rw [if_neg hlt.not_gt, if_neg hlt.ne'] at h
      omega
    rcases (hle a b hab).trans (hle b c hbc) |>.lt_or_eq with h | h
    · rw [if_pos h]
      omega
    · rw [if_neg h.not_lt, if_pos h]
  eq_of_zero a b h := by
    by_contra hne
    split at h <;> omega

def configured (cfg : Members) : Members := [("apps",.obj []),("config",.obj cfg)]

def underPrototype : AgentState byCharacters where
  members := configured [("__proto__",.obj [("level",.str "debug")])]
  proper := by simp [configured, Proper, ProperMembers]
  apps v hv _ := by
    cases hv
    exact ⟨[],rfl,fun key hkey => by cases hkey⟩
  arrays cfg hcfg key hkey items hitems := by
    cases hcfg
    rcases hkey with rfl | rfl <;> cases hitems

def withoutSettings : AgentState byCharacters where
  members := configured []
  proper := by simp [configured, Proper, ProperMembers]
  apps v hv _ := by
    cases hv
    exact ⟨[],rfl,fun key hkey => by cases hkey⟩
  arrays cfg hcfg key hkey items hitems := by
    cases hcfg
    cases hitems

/-- What a configuration holds under this name changes no hash. -/
theorem prototype_not_hashed :
    (∃ text, hashedText byCharacters underPrototype.members = some text ∧
      hashedText byCharacters withoutSettings.members = some text) ∧
    ¬SameState underPrototype.members withoutSettings.members := by
  refine ⟨⟨_,rfl,rfl⟩,fun h => ?_⟩
  have hconfig := h "config"
  cases hconfig with
  | some hsame =>
    have hproto := hsame "__proto__"
    cases hproto

end Iotistica.StateHash
