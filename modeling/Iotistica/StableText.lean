import Iotistica.JsonDoubles

/-!
# Stable text of a value

`stableStringify` prints the members of every object in the order of their
names. It prints what the runtime prints for the value with all members
sorted, so the text reads back, and two values have the same text exactly if
they differ in the order of members only.
-/

set_option autoImplicit false

namespace Iotistica.StableText
open Iotistica.JsonText Iotistica.JsonDoubles Iotistica.JsSort

/-- `join(',')`. -/
def commas (parts : List (List Char)) : List Char := [','].intercalate parts

mutual
def stableChars : Value → List Char
  | .arr items => '[' :: (commas (stableItems items)++[']'])
  | .obj members =>
    '{' :: (commas ((sort (members.map Prod.fst)).filterMap (fun key =>
      ((stableMembers members).lookup key).map (fun text => quote key++ ':' :: text)))++['}'])
  | v => print v

def stableItems : List Value → List (List Char)
  | [] => []
  | v :: vs => stableChars v :: stableItems vs

def stableMembers : Members → List (String × List Char)
  | [] => []
  | m :: ms => (m.1,stableChars m.2) :: stableMembers ms
end

def stableStringify (v : Value) : String := String.ofList (stableChars v)

def sortMembers (members : Members) : Members :=
  members.insertionSort (fun a b => unitsLe a.1 b.1)

mutual
def canonical : Value → Value
  | .arr items => .arr (canonicalItems items)
  | .obj members => .obj (sortMembers (canonicalMembers members))
  | v => v

def canonicalItems : List Value → List Value
  | [] => []
  | v :: vs => canonical v :: canonicalItems vs

def canonicalMembers : Members → Members
  | [] => []
  | m :: ms => (m.1,canonical m.2) :: canonicalMembers ms
end

theorem sortMembers_perm (members : Members) : (sortMembers members).Perm members :=
  List.perm_insertionSort _ members

theorem perm_of_sortMembers {ms ns : Members} (h : sortMembers ms = sortMembers ns) :
    ms.Perm ns :=
  (sortMembers_perm ms).symm.trans (h ▸ sortMembers_perm ns)

theorem map_fst_sortMembers (members : Members) :
    (sortMembers members).map Prod.fst = sort (members.map Prod.fst) :=
  List.map_insertionSort _ _ _ _ (fun _ _ _ _ => Iff.rfl)

instance : Std.Total (fun a b : String × Value => unitsLe a.1 b.1) :=
  ⟨fun a b => Std.Total.total (r := unitsLe) a.1 b.1⟩

instance : IsTrans (String × Value) (fun a b => unitsLe a.1 b.1) :=
  ⟨fun _ _ _ h h' => IsTrans.trans (r := unitsLe) _ _ _ h h'⟩

theorem eq_of_mem_of_name {members : Members} (h : (members.map Prod.fst).Nodup)
    {a b : String × Value} (ha : a ∈ members) (hb : b ∈ members) (hname : a.1 = b.1) : a = b := by
  have hla := OrderedMap.lookup_of_mem members h ha
  have hlb := OrderedMap.lookup_of_mem members h hb
  rw [hname, hlb] at hla
  exact Prod.ext hname (Option.some.inj hla).symm

theorem sortMembers_eq {ms ns : Members} (h : (ns.map Prod.fst).Nodup) (hperm : ms.Perm ns) :
    sortMembers ms = sortMembers ns := by
  have hsort := List.pairwise_insertionSort (fun a b : String × Value => unitsLe a.1 b.1)
  refine List.Perm.eq_of_pairwise ?_ (hsort ms) (hsort ns) ?_
  · intro a b ha hb hab hba
    have ha' := hperm.mem_iff.mp ((sortMembers_perm ms).mem_iff.mp ha)
    have hb' := (sortMembers_perm ns).mem_iff.mp hb
    exact eq_of_mem_of_name h ha' hb' (Std.Antisymm.antisymm (r := unitsLe) a.1 b.1 hab hba)
  · exact (sortMembers_perm ms).trans (hperm.trans (sortMembers_perm ns).symm)

theorem canonicalMembers_eq (members : Members) :
    canonicalMembers members = members.map (fun m => (m.1,canonical m.2)) := by
  induction members with
  | nil => rfl
  | cons m ms ih => rw [canonicalMembers, ih, List.map_cons]

theorem map_fst_canonicalMembers (members : Members) :
    (canonicalMembers members).map Prod.fst = members.map Prod.fst := by
  rw [canonicalMembers_eq, List.map_map]
  rfl

theorem lookup_of_perm {ms ns : Members} (h : (ns.map Prod.fst).Nodup) (hperm : ms.Perm ns)
    (k : String) : ms.lookup k = ns.lookup k := by
  have hm : (ms.map Prod.fst).Nodup := (hperm.map Prod.fst).nodup_iff.mpr h
  apply Option.ext
  intro v
  constructor
  · exact fun hv => OrderedMap.lookup_of_mem ns h
      (hperm.mem_iff.mp (OrderedMap.mem_of_lookup ms hv))
  · exact fun hv => OrderedMap.lookup_of_mem ms hm
      (hperm.mem_iff.mpr (OrderedMap.mem_of_lookup ns hv))

theorem perm_of_lookup {ms ns : Members} (hm : (ms.map Prod.fst).Nodup)
    (hn : (ns.map Prod.fst).Nodup) (h : ∀ k, ms.lookup k = ns.lookup k) : ms.Perm ns := by
  rw [List.perm_ext_iff_of_nodup (hm.of_map Prod.fst) (hn.of_map Prod.fst)]
  rintro ⟨k,v⟩
  constructor
  · intro hv
    have hlookup := OrderedMap.lookup_of_mem ms hm hv
    rw [h k] at hlookup
    exact OrderedMap.mem_of_lookup ns hlookup
  · intro hv
    have hlookup := OrderedMap.lookup_of_mem ns hn hv
    rw [← h k] at hlookup
    exact OrderedMap.mem_of_lookup ms hlookup

theorem canonical_obj_eq_iff {ms ns : Members} (hm : (ms.map Prod.fst).Nodup)
    (hn : (ns.map Prod.fst).Nodup) :
    canonical (.obj ms) = canonical (.obj ns) ↔
      ∀ k, (ms.lookup k).map canonical = (ns.lookup k).map canonical := by
  have hlookup : ∀ (es : Members) (k : String),
      (canonicalMembers es).lookup k = (es.lookup k).map canonical := by
    intro es k
    rw [canonicalMembers_eq, OrderedMap.lookup_map_snd]
  rw [← map_fst_canonicalMembers] at hm hn
  constructor
  · intro h k
    rw [canonical, canonical] at h
    rw [← hlookup, ← hlookup, lookup_of_perm hn (perm_of_sortMembers (Value.obj.inj h))]
  · intro h
    rw [canonical, canonical]
    apply congrArg Value.obj
    apply sortMembers_eq hn
    apply perm_of_lookup hm hn
    intro k
    rw [hlookup, hlookup, h k]

mutual
theorem proper_canonical : ∀ {v : Value}, Proper v → Proper (canonical v)
  | .null, _ => trivial
  | .bool _, _ => trivial
  | .num _, _ => trivial
  | .str _, _ => trivial
  | .arr items, h => by
    rw [Proper] at h
    rw [canonical, Proper]
    exact proper_canonicalItems h
  | .obj members, h => by
    rw [Proper] at h
    rw [canonical, Proper]
    have hperm := sortMembers_perm (canonicalMembers members)
    refine ⟨?_,?_⟩
    · rw [(hperm.map Prod.fst).nodup_iff, map_fst_canonicalMembers]
      exact h.1
    · rw [properMembers_iff]
      have hall := (properMembers_iff _).mp (proper_canonicalMembers h.2)
      exact fun m hm => hall m (hperm.mem_iff.mp hm)

theorem proper_canonicalItems : ∀ {vs : List Value}, ProperItems vs →
    ProperItems (canonicalItems vs)
  | [], _ => trivial
  | _ :: _, h => ⟨proper_canonical h.1,proper_canonicalItems h.2⟩

theorem proper_canonicalMembers : ∀ {ms : Members}, ProperMembers ms →
    ProperMembers (canonicalMembers ms)
  | [], _ => trivial
  | _ :: _, h => ⟨proper_canonical h.1,proper_canonicalMembers h.2⟩
end

theorem print_items (v : Value) (vs : List Value) :
    print v++printItems vs = commas (print v :: vs.map print)++[']'] := by
  induction vs generalizing v with
  | nil => simp [printItems, commas]
  | cons w vs ih =>
    rw [printItems, ih, List.map_cons]
    simp [commas, List.intercalate_cons_cons]

theorem print_arr (items : List Value) :
    print (.arr items) = '[' :: (commas (items.map print)++[']']) := by
  cases items with
  | nil => rfl
  | cons v vs => rw [print, print_items, List.map_cons]

def memberText (m : String × Value) : List Char := quote m.1++ ':' :: print m.2

theorem print_members (m : String × Value) (ms : Members) :
    quote m.1++ ':' :: (print m.2++printMembers ms) =
      commas (memberText m :: ms.map memberText)++['}'] := by
  induction ms generalizing m with
  | nil => simp [printMembers, commas, memberText]
  | cons n ms ih =>
    rw [printMembers, ih, List.map_cons]
    simp [commas, memberText, List.intercalate_cons_cons]

theorem print_obj (members : Members) :
    print (.obj members) = '{' :: (commas (members.map memberText)++['}']) := by
  cases members with
  | nil => rfl
  | cons m ms => rw [print, print_members m ms, List.map_cons]

theorem filterMap_lookup {names : List String} {texts : List (String × List Char)}
    {f : String → List Char → List Char} {g : String × Value → List Char} {members : Members}
    (hnames : names = members.map Prod.fst)
    (h : ∀ m ∈ members, (texts.lookup m.1).map (f m.1) = some (g m)) :
    names.filterMap (fun key => (texts.lookup key).map (f key)) = members.map g := by
  subst hnames
  induction members with
  | nil => rfl
  | cons m ms ih =>
    have hm := h m List.mem_cons_self
    rw [List.map_cons, List.filterMap_cons, hm, List.map_cons,
      ih (fun n hn => h n (List.mem_cons_of_mem _ hn))]

mutual
theorem stableChars_eq : ∀ {v : Value}, Proper v → stableChars v = print (canonical v)
  | .null, _ => rfl
  | .bool _, _ => rfl
  | .num _, _ => rfl
  | .str _, _ => rfl
  | .arr items, h => by
    rw [Proper] at h
    rw [stableChars, canonical, print_arr, stableItems_eq h]
  | .obj members, h => by
    rw [Proper] at h
    rw [stableChars, canonical, print_obj, stableMembers_eq h.2]
    have hperm := sortMembers_perm (canonicalMembers members)
    have hnodup : ((canonicalMembers members).map Prod.fst).Nodup := by
      rw [map_fst_canonicalMembers]
      exact h.1
    have hnames : sort (members.map Prod.fst) =
        (sortMembers (canonicalMembers members)).map Prod.fst := by
      rw [map_fst_sortMembers, map_fst_canonicalMembers]
    rw [filterMap_lookup (g := memberText) hnames]
    intro m hm
    have htexts : (((canonicalMembers members).map (fun m => (m.1,print m.2))).map
        Prod.fst).Nodup := by
      rw [List.map_map]
      exact hnodup
    have hlookup := OrderedMap.lookup_of_mem _ htexts
      (List.mem_map_of_mem (f := fun m : String × Value => (m.1,print m.2))
        (hperm.mem_iff.mp hm))
    simp only at hlookup
    rw [hlookup]
    rfl

theorem stableItems_eq : ∀ {vs : List Value}, ProperItems vs →
    stableItems vs = (canonicalItems vs).map print
  | [], _ => rfl
  | _ :: _, h => by
    rw [stableItems, canonicalItems, List.map_cons, stableChars_eq h.1, stableItems_eq h.2]

theorem stableMembers_eq : ∀ {ms : Members}, ProperMembers ms →
    stableMembers ms = (canonicalMembers ms).map (fun m => (m.1,print m.2))
  | [], _ => rfl
  | _ :: _, h => by
    rw [stableMembers, canonicalMembers, List.map_cons, stableChars_eq h.1, stableMembers_eq h.2]
end

theorem stableStringify_eq {v : Value} (h : Proper v) :
    stableStringify v = stringify (canonical v) := congrArg String.ofList (stableChars_eq h)

theorem parse_stableStringify {v : Value} (h : Proper v) :
    parse (stableStringify v) = some (canonical v) := by
  rw [stableStringify_eq h, parse_stringify (proper_canonical h)]

theorem stableStringify_inj {v w : Value} (hv : Proper v) (hw : Proper w) :
    stableStringify v = stableStringify w ↔ canonical v = canonical w := by
  constructor
  · intro h
    have hparse := parse_stableStringify hv
    rw [h, parse_stableStringify hw] at hparse
    exact (Option.some.inj hparse).symm
  · intro h
    rw [stableStringify_eq hv, stableStringify_eq hw, h]

theorem exists_perm_of_map_perm {α β : Type*} {f : α → β} {xs ys : List α}
    (h : (xs.map f).Perm (ys.map f)) : ∃ zs : List α, zs.Perm ys ∧ zs.map f = xs.map f := by
  induction xs generalizing ys with
  | nil =>
    have hnil := List.map_eq_nil_iff.mp (List.nil_perm.mp h)
    exact ⟨[],by rw [hnil],rfl⟩
  | cons x xs ih =>
    have hmem : f x ∈ ys.map f := h.subset List.mem_cons_self
    obtain ⟨y,hy,hfy⟩ := List.mem_map.mp hmem
    obtain ⟨pre,post,rfl⟩ := List.append_of_mem hy
    have hmid : (f x :: xs.map f).Perm (f x :: (pre++post).map f) := by
      have hmiddle : ((pre++y :: post).map f).Perm ((y :: (pre++post)).map f) :=
        List.perm_middle.map f
      rw [List.map_cons, hfy] at hmiddle
      exact h.trans hmiddle
    obtain ⟨zs,hperm,hmap⟩ := ih hmid.cons_inv
    refine ⟨y :: zs,(hperm.cons y).trans List.perm_middle.symm,?_⟩
    rw [List.map_cons, List.map_cons, hmap, hfy]

/-- Equal up to the order of members. -/
abbrev SameValue : Value → Value → Prop := Same exactDoubles

mutual
theorem same_canonical : ∀ v : Value, SameValue v (canonical v)
  | .null => rfl
  | .bool _ => rfl
  | .str _ => rfl
  | .num d => by
    rw [SameValue, canonical, Same]
    · exact ⟨d,rfl,rfl⟩
    all_goals simp
  | .arr vs => by
    rw [SameValue, canonical, Same]
    exact ⟨_,rfl,same_canonicalItems vs⟩
  | .obj ms => by
    rw [SameValue, canonical, Same]
    exact ⟨_,_,rfl,(sortMembers_perm _).symm,same_canonicalMembers ms⟩

theorem same_canonicalItems : ∀ vs : List Value, SameItems exactDoubles vs (canonicalItems vs)
  | [] => rfl
  | v :: vs => ⟨_,_,rfl,same_canonical v,same_canonicalItems vs⟩

theorem same_canonicalMembers : ∀ ms : Members, SameMembers exactDoubles ms (canonicalMembers ms)
  | [] => rfl
  | m :: ms => ⟨_,_,rfl,same_canonical m.2,same_canonicalMembers ms⟩
end

mutual
theorem same_of_canonical : ∀ {v w : Value}, canonical v = canonical w → SameValue v w
  | .null, w, h => by
    cases w <;> simp only [canonical] at h <;> cases h
    rfl
  | .bool b, w, h => by
    cases w <;> simp only [canonical] at h <;> cases h
    rfl
  | .str s, w, h => by
    cases w <;> simp only [canonical] at h <;> cases h
    rfl
  | .num d, w, h => by
    cases w <;> simp only [canonical] at h <;> cases h
    exact same_canonical (.num d)
  | .arr vs, w, h => by
    cases w <;> simp only [canonical] at h <;> try cases h
    rename_i ws
    rw [SameValue, Same]
    exact ⟨ws,rfl,sameItems_of_canonical (Value.arr.inj h)⟩
  | .obj ms, w, h => by
    cases w <;> simp only [canonical] at h <;> try cases h
    rename_i ns
    have hperm := perm_of_sortMembers (Value.obj.inj h)
    rw [canonicalMembers_eq, canonicalMembers_eq] at hperm
    obtain ⟨held,hheld,hmap⟩ := exists_perm_of_map_perm hperm
    rw [SameValue, Same]
    refine ⟨held,ns,rfl,hheld,sameMembers_of_canonical ?_⟩
    rw [canonicalMembers_eq, canonicalMembers_eq, hmap]

theorem sameItems_of_canonical : ∀ {vs ws : List Value}, canonicalItems vs = canonicalItems ws →
    SameItems exactDoubles vs ws
  | [], ws, h => by
    cases ws with
    | nil => rfl
    | cons w ws => cases h
  | v :: vs, ws, h => by
    cases ws with
    | nil => cases h
    | cons w ws =>
      obtain ⟨hv,hvs⟩ := List.cons.inj h
      exact ⟨w,ws,rfl,same_of_canonical hv,sameItems_of_canonical hvs⟩

theorem sameMembers_of_canonical : ∀ {ms ns : Members}, canonicalMembers ms = canonicalMembers ns →
    SameMembers exactDoubles ms ns
  | [], ns, h => by
    cases ns with
    | nil => rfl
    | cons n ns => cases h
  | m :: ms, ns, h => by
    cases ns with
    | nil => cases h
    | cons n ns =>
      obtain ⟨hm,hms⟩ := List.cons.inj h
      obtain ⟨hname,hvalue⟩ := Prod.mk.inj hm
      refine ⟨n.2,ns,?_,same_of_canonical hvalue,sameMembers_of_canonical hms⟩
      rw [hname]
end

mutual
theorem canonical_of_same : ∀ {v w : Value}, Proper v → Proper w → SameValue v w →
    canonical v = canonical w
  | .null, _, _, _, h => by
    rw [SameValue, Same] at h
    · rw [h]
    all_goals simp
  | .bool _, _, _, _, h => by
    rw [SameValue, Same] at h
    · rw [h]
    all_goals simp
  | .str _, _, _, _, h => by
    rw [SameValue, Same] at h
    · rw [h]
    all_goals simp
  | .num d, _, _, _, h => by
    rw [SameValue, Same] at h
    obtain ⟨e,rfl,he⟩ := h
    exact congrArg Value.num he
  | .arr vs, _, hv, hw, h => by
    rw [SameValue, Same] at h
    obtain ⟨ws,rfl,h⟩ := h
    rw [Proper] at hv hw
    rw [canonical, canonical, canonicalItems_of_same hv hw h]
  | .obj ms, _, hv, hw, h => by
    rw [SameValue, Same] at h
    obtain ⟨ns,held,rfl,hperm,h⟩ := h
    rw [Proper] at hv hw
    have hns : ProperMembers ns := by
      rw [properMembers_iff] at hw ⊢
      exact fun m hm => hw.2 m (hperm.mem_iff.mp hm)
    rw [canonical, canonical, canonicalMembers_of_same hv.2 hns h]
    apply congrArg Value.obj
    apply sortMembers_eq
    · rw [map_fst_canonicalMembers]
      exact hw.1
    · rw [canonicalMembers_eq, canonicalMembers_eq]
      exact hperm.map _

theorem canonicalItems_of_same : ∀ {vs ws : List Value}, ProperItems vs → ProperItems ws →
    SameItems exactDoubles vs ws → canonicalItems vs = canonicalItems ws
  | [], _, _, _, h => by
    rw [SameItems] at h
    rw [h]
  | _ :: _, _, hv, hw, h => by
    rw [SameItems] at h
    obtain ⟨w,rest,rfl,hsame,hrest⟩ := h
    rw [canonicalItems, canonicalItems, canonical_of_same hv.1 hw.1 hsame,
      canonicalItems_of_same hv.2 hw.2 hrest]

theorem canonicalMembers_of_same : ∀ {ms ns : Members}, ProperMembers ms → ProperMembers ns →
    SameMembers exactDoubles ms ns → canonicalMembers ms = canonicalMembers ns
  | [], _, _, _, h => by
    rw [SameMembers] at h
    rw [h]
  | _ :: _, _, hv, hw, h => by
    rw [SameMembers] at h
    obtain ⟨w,rest,rfl,hsame,hrest⟩ := h
    rw [canonicalMembers, canonicalMembers, canonical_of_same hv.1 hw.1 hsame,
      canonicalMembers_of_same hv.2 hw.2 hrest]
end

theorem canonical_eq_iff {v w : Value} (hv : Proper v) (hw : Proper w) :
    canonical v = canonical w ↔ SameValue v w :=
  ⟨same_of_canonical,canonical_of_same hv hw⟩

/-- Two values have the same stable text exactly if they are equal up to the
order of members, and the text reads back as the value up to that order. -/
theorem stable_text_canonical :
    (∀ x y : {v : Value // Proper v},
      stableStringify x.1 = stableStringify y.1 ↔ SameValue x.1 y.1) ∧
    ∀ x : {v : Value // Proper v},
      ∃ y, parse (stableStringify x.1) = some y ∧ SameValue x.1 y :=
  ⟨fun x y => (stableStringify_inj x.2 y.2).trans (canonical_eq_iff x.2 y.2),
    fun x => ⟨canonical x.1,parse_stableStringify x.2,same_canonical x.1⟩⟩

end Iotistica.StableText
