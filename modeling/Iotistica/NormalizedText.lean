import Iotistica.StableText

/-!
# The text of a normalized value

`normalizeValue` copies an object member by member into an empty one, in the
order of the names. Assigning under the name `__proto__` gives the copy a
prototype and no member, so what an object holds there is not printed. The
text is that of the sorted value without these members: two values have the
same text exactly if they are equal without them up to the order of members.
-/

set_option autoImplicit false

namespace Iotistica.NormalizedText
open Iotistica.JsonText Iotistica.JsonDoubles Iotistica.StableText

mutual
def normalizeValue : Value → Value
  | .arr items => .arr (normalizeItems items)
  | .obj members => .obj (sortMembers (normalizeMembers members))
  | v => v

def normalizeItems : List Value → List Value
  | [] => []
  | v :: vs => normalizeValue v :: normalizeItems vs

/-- What `result[key] = …` leaves among the members of the copy. -/
def normalizeMembers : Members → Members
  | [] => []
  | m :: ms =>
    if m.1 = "__proto__" then normalizeMembers ms
    else (m.1,normalizeValue m.2) :: normalizeMembers ms
end

def stableStringify (v : Value) : String := stringify (printed exactDoubles (normalizeValue v))

mutual
def drop : Value → Value
  | .arr items => .arr (dropItems items)
  | .obj members => .obj (dropMembers members)
  | v => v

def dropItems : List Value → List Value
  | [] => []
  | v :: vs => drop v :: dropItems vs

def dropMembers : Members → Members
  | [] => []
  | m :: ms =>
    if m.1 = "__proto__" then dropMembers ms else (m.1,drop m.2) :: dropMembers ms
end

theorem normalizeItems_eq (vs : List Value) : normalizeItems vs = vs.map normalizeValue := by
  induction vs with
  | nil => rfl
  | cons v vs ih => rw [normalizeItems, ih, List.map_cons]

theorem dropItems_eq (vs : List Value) : dropItems vs = vs.map drop := by
  induction vs with
  | nil => rfl
  | cons v vs ih => rw [dropItems, ih, List.map_cons]

theorem canonicalItems_eq (vs : List Value) : canonicalItems vs = vs.map canonical := by
  induction vs with
  | nil => rfl
  | cons v vs ih => rw [canonicalItems, ih, List.map_cons]

def ordinary (m : String × Value) : Bool := decide (m.1 ≠ "__proto__")

theorem dropMembers_eq (ms : Members) :
    dropMembers ms = (ms.filter ordinary).map (fun m => (m.1,drop m.2)) := by
  induction ms with
  | nil => rfl
  | cons m ms ih =>
    by_cases h : m.1 = "__proto__"
    · rw [dropMembers, if_pos h, List.filter_cons_of_neg (by simp [ordinary, h]), ih]
    · rw [dropMembers, if_neg h, List.filter_cons_of_pos (by simp [ordinary, h]),
        List.map_cons, ih]

theorem map_fst_dropMembers (ms : Members) :
    (dropMembers ms).map Prod.fst = (ms.filter ordinary).map Prod.fst := by
  rw [dropMembers_eq, List.map_map]
  rfl

theorem lookup_ordinary (ms : Members) {key : String} (h : key ≠ "__proto__") :
    (ms.filter ordinary).lookup key = ms.lookup key := by
  have hfilter := OrderedMap.lookup_filter_fst (fun k => decide (k ≠ "__proto__")) ms key
  rw [if_pos (by simp [h])] at hfilter
  exact hfilter

theorem lookup_prototype (ms : Members) : (ms.filter ordinary).lookup "__proto__" = none := by
  have hfilter := OrderedMap.lookup_filter_fst (fun k => decide (k ≠ "__proto__")) ms "__proto__"
  rw [if_neg (by simp)] at hfilter
  exact hfilter

theorem lookup_dropMembers (ms : Members) {key : String} (h : key ≠ "__proto__") :
    (dropMembers ms).lookup key = (ms.lookup key).map drop := by
  rw [dropMembers_eq, OrderedMap.lookup_map_snd, lookup_ordinary ms h]

theorem lookup_dropMembers_prototype (ms : Members) :
    (dropMembers ms).lookup "__proto__" = none := by
  rw [dropMembers_eq, OrderedMap.lookup_map_snd, lookup_prototype]
  rfl

theorem nodup_dropMembers {ms : Members} (h : (ms.map Prod.fst).Nodup) :
    ((dropMembers ms).map Prod.fst).Nodup := by
  rw [map_fst_dropMembers]
  exact h.sublist (List.filter_sublist.map Prod.fst)

theorem dropMembers_perm {ms ns : Members} (h : ms.Perm ns) :
    (dropMembers ms).Perm (dropMembers ns) := by
  rw [dropMembers_eq, dropMembers_eq]
  exact (h.filter _).map _

mutual
theorem proper_drop : ∀ {v : Value}, Proper v → Proper (drop v)
  | .null, _ => trivial
  | .bool _, _ => trivial
  | .num _, _ => trivial
  | .str _, _ => trivial
  | .arr _, h => by
    rw [Proper] at h
    rw [drop, Proper]
    exact proper_dropItems h
  | .obj _, h => by
    rw [Proper] at h
    rw [drop, Proper]
    exact ⟨nodup_dropMembers h.1,proper_dropMembers h.2⟩

theorem proper_dropItems : ∀ {vs : List Value}, ProperItems vs → ProperItems (dropItems vs)
  | [], _ => trivial
  | _ :: _, h => ⟨proper_drop h.1,proper_dropItems h.2⟩

theorem proper_dropMembers : ∀ {ms : Members}, ProperMembers ms → ProperMembers (dropMembers ms)
  | [], _ => trivial
  | m :: ms, h => by
    rw [dropMembers]
    split
    · exact proper_dropMembers h.2
    · exact ⟨proper_drop h.1,proper_dropMembers h.2⟩
end

mutual
theorem normalizeValue_eq : ∀ v : Value, normalizeValue v = canonical (drop v)
  | .null => rfl
  | .bool _ => rfl
  | .num _ => rfl
  | .str _ => rfl
  | .arr items => by rw [normalizeValue, drop, canonical, normalizeItems_canonical items]
  | .obj members => by rw [normalizeValue, drop, canonical, normalizeMembers_canonical members]

theorem normalizeItems_canonical : ∀ vs : List Value,
    normalizeItems vs = canonicalItems (dropItems vs)
  | [] => rfl
  | v :: vs => by
    rw [normalizeItems, dropItems, canonicalItems, normalizeValue_eq v, normalizeItems_canonical vs]

theorem normalizeMembers_canonical : ∀ ms : Members,
    normalizeMembers ms = canonicalMembers (dropMembers ms)
  | [] => rfl
  | m :: ms => by
    rw [normalizeMembers, dropMembers]
    split
    · exact normalizeMembers_canonical ms
    · rw [canonicalMembers, normalizeValue_eq m.2, normalizeMembers_canonical ms]
end

theorem proper_normalizeValue {v : Value} (h : Proper v) : Proper (normalizeValue v) := by
  rw [normalizeValue_eq]
  exact proper_canonical (proper_drop h)

mutual
theorem finite_exact : ∀ v : Value, AllFinite exactDoubles v
  | .null => trivial
  | .bool _ => trivial
  | .num _ => rfl
  | .str _ => trivial
  | .arr vs => finite_exactItems vs
  | .obj ms => finite_exactMembers ms

theorem finite_exactItems : ∀ vs : List Value, AllFiniteItems exactDoubles vs
  | [] => trivial
  | v :: vs => ⟨finite_exact v,finite_exactItems vs⟩

theorem finite_exactMembers : ∀ ms : Members, AllFiniteMembers exactDoubles ms
  | [] => trivial
  | m :: ms => ⟨finite_exact m.2,finite_exactMembers ms⟩
end

theorem canonical_canonical {v : Value} (h : Proper v) : canonical (canonical v) = canonical v :=
  (canonical_of_same h (proper_canonical h) (same_canonical v)).symm

theorem canonical_printed {v : Value} (h : Proper v) :
    canonical (printed exactDoubles v) = canonical v :=
  (canonical_of_same h (proper_printed exactDoubles h)
    (same_printed exactDoubles (finite_exact v))).symm

/-- The runtime prints the members named like places of an array before the
others; which members are printed does not depend on it. -/
theorem stableStringify_inj {v w : Value} (hv : Proper v) (hw : Proper w) :
    stableStringify v = stableStringify w ↔ normalizeValue v = normalizeValue w := by
  constructor
  · intro h
    have hparse := congrArg parse h
    rw [stableStringify, stableStringify,
      parse_stringify (proper_printed exactDoubles (proper_normalizeValue hv)),
      parse_stringify (proper_printed exactDoubles (proper_normalizeValue hw))] at hparse
    have hcanonical := congrArg canonical (Option.some.inj hparse)
    rw [canonical_printed (proper_normalizeValue hv), canonical_printed (proper_normalizeValue hw),
      normalizeValue_eq, normalizeValue_eq, canonical_canonical (proper_drop hv),
      canonical_canonical (proper_drop hw)] at hcanonical
    rw [normalizeValue_eq, normalizeValue_eq, hcanonical]
  · intro h
    rw [stableStringify, stableStringify, h]

theorem normalizeValue_inj {v w : Value} (hv : Proper v) (hw : Proper w) :
    normalizeValue v = normalizeValue w ↔ SameValue (drop v) (drop w) := by
  rw [normalizeValue_eq, normalizeValue_eq]
  exact canonical_eq_iff (proper_drop hv) (proper_drop hw)

theorem normalizeValue_obj_iff {ms ns : Members} (hm : (ms.map Prod.fst).Nodup)
    (hn : (ns.map Prod.fst).Nodup) :
    normalizeValue (.obj ms) = normalizeValue (.obj ns) ↔ ∀ key, key ≠ "__proto__" →
      (ms.lookup key).map normalizeValue = (ns.lookup key).map normalizeValue := by
  have hlookup : ∀ (es : Members) {key : String}, key ≠ "__proto__" →
      ((dropMembers es).lookup key).map canonical = (es.lookup key).map normalizeValue := by
    intro es key hkey
    rw [lookup_dropMembers es hkey, Option.map_map]
    congr 1
    funext v
    exact (normalizeValue_eq v).symm
  rw [normalizeValue_eq, normalizeValue_eq, drop, drop,
    canonical_obj_eq_iff (nodup_dropMembers hm) (nodup_dropMembers hn)]
  constructor
  · intro h key hkey
    rw [← hlookup ms hkey, ← hlookup ns hkey]
    exact h key
  · intro h key
    by_cases hkey : key = "__proto__"
    · rw [hkey, lookup_dropMembers_prototype, lookup_dropMembers_prototype]
    · rw [hlookup ms hkey, hlookup ns hkey]
      exact h key hkey

theorem member_normalizeValue {v : Value} (h : Proper v) {key : String} (hkey : key ≠ "__proto__") :
    member (normalizeValue v) key = (member v key).map normalizeValue := by
  cases v with
  | obj members =>
    rw [Proper] at h
    have hnodup : ((normalizeMembers members).map Prod.fst).Nodup := by
      rw [normalizeMembers_canonical, map_fst_canonicalMembers]
      exact nodup_dropMembers h.1
    rw [normalizeValue, member, member, lookup_of_perm hnodup (sortMembers_perm _) key,
      normalizeMembers_canonical, canonicalMembers_eq, OrderedMap.lookup_map_snd,
      lookup_dropMembers members hkey, Option.map_map]
    congr 1
    funext v
    exact (normalizeValue_eq v).symm
  | _ => rfl

mutual
theorem drop_normalizeValue : ∀ v : Value, drop (normalizeValue v) = normalizeValue v
  | .null => rfl
  | .bool _ => rfl
  | .num _ => rfl
  | .str _ => rfl
  | .arr items => by rw [normalizeValue, drop, drop_normalizeItems items]
  | .obj members => by
    rw [normalizeValue, drop]
    have hmembers : ∀ m ∈ sortMembers (normalizeMembers members), ordinary m = true ∧
        drop m.2 = m.2 :=
      fun m hm => drop_normalizeMembers members m ((sortMembers_perm _).mem_iff.mp hm)
    rw [dropMembers_eq, List.filter_eq_self.mpr (fun m hm => (hmembers m hm).1)]
    apply congrArg Value.obj
    refine (List.map_congr_left fun m hm => ?_).trans (List.map_id _)
    rw [(hmembers m hm).2]
    rfl

theorem drop_normalizeItems : ∀ vs : List Value, dropItems (normalizeItems vs) = normalizeItems vs
  | [] => rfl
  | v :: vs => by rw [normalizeItems, dropItems, drop_normalizeValue v, drop_normalizeItems vs]

theorem drop_normalizeMembers : ∀ ms : Members, ∀ m ∈ normalizeMembers ms,
    ordinary m = true ∧ drop m.2 = m.2
  | [] => fun m hm => by cases hm
  | n :: ms => by
    intro m hm
    rw [normalizeMembers] at hm
    split at hm
    · exact drop_normalizeMembers ms m hm
    · rename_i hname
      rcases List.mem_cons.mp hm with rfl | hm
      · exact ⟨by simp [ordinary, hname],drop_normalizeValue n.2⟩
      · exact drop_normalizeMembers ms m hm
end

theorem normalizeValue_twice {v : Value} (h : Proper v) :
    normalizeValue (normalizeValue v) = normalizeValue v := by
  rw [normalizeValue_eq (normalizeValue v), drop_normalizeValue, normalizeValue_eq v,
    canonical_canonical (proper_drop h)]

mutual
theorem same_drop : ∀ {v w : Value}, SameValue v w → SameValue (drop v) (drop w)
  | .null, _, h => by
    rw [SameValue, Same] at h
    · rw [h]
      exact same_of_canonical rfl
    all_goals simp
  | .bool _, _, h => by
    rw [SameValue, Same] at h
    · rw [h]
      exact same_of_canonical rfl
    all_goals simp
  | .str _, _, h => by
    rw [SameValue, Same] at h
    · rw [h]
      exact same_of_canonical rfl
    all_goals simp
  | .num d, _, h => by
    rw [SameValue, Same] at h
    obtain ⟨e,rfl,he⟩ := h
    exact same_of_canonical (congrArg Value.num he)
  | .arr vs, _, h => by
    rw [SameValue, Same] at h
    obtain ⟨ws,rfl,h⟩ := h
    rw [SameValue, drop, Same]
    exact ⟨_,rfl,same_dropItems h⟩
  | .obj ms, _, h => by
    rw [SameValue, Same] at h
    obtain ⟨ns,held,rfl,hperm,h⟩ := h
    rw [SameValue, drop, Same]
    exact ⟨_,_,rfl,dropMembers_perm hperm,same_dropMembers h⟩

theorem same_dropItems : ∀ {vs ws : List Value}, SameItems exactDoubles vs ws →
    SameItems exactDoubles (dropItems vs) (dropItems ws)
  | [], _, h => by
    rw [SameItems] at h
    rw [h]
    rfl
  | _ :: _, _, h => by
    rw [SameItems] at h
    obtain ⟨w,rest,rfl,hv,hvs⟩ := h
    exact ⟨_,_,rfl,same_drop hv,same_dropItems hvs⟩

theorem same_dropMembers : ∀ {ms ns : Members}, SameMembers exactDoubles ms ns →
    SameMembers exactDoubles (dropMembers ms) (dropMembers ns)
  | [], _, h => by
    rw [SameMembers] at h
    rw [h]
    rfl
  | m :: ms, _, h => by
    rw [SameMembers] at h
    obtain ⟨w,rest,rfl,hv,hvs⟩ := h
    rw [dropMembers, dropMembers]
    split
    · exact same_dropMembers hvs
    · exact ⟨_,_,rfl,same_drop hv,same_dropMembers hvs⟩
end

end Iotistica.NormalizedText
