import Iotistica.DictionaryMessage

/-!
# Paths of fields

A path is the keys on the way to a leaf, joined by dots, with a marker
after the key of each array. The cloud cuts a path back to what follows the
last marker, so `segments` are the keys since the root or since the element
of an array, without the empty ones. Expanding a compacted object is a list
of writes along such segments, which `arrivals` reads off the object.
-/

set_option autoImplicit false

namespace Iotistica.DictionaryCodec
open Iotistica Iotistica.JsText Iotistica.AgentDictionary
open Iotistica.CloudDictionary

def PlainKey (key : String) : Prop := ∀ c ∈ key.toList, isSeparator c = false

instance (key : String) : Decidable (PlainKey key) :=
  List.decidableBAll (fun c => isSeparator c = false) key.toList

theorem PlainKey.no_bracket {key : String} (h : PlainKey key) : '[' ∉ key.toList := by
  intro hm
  have hs := h '[' hm
  revert hs
  decide

theorem splitPath_ne_nil (cs : List Char) : splitPath cs ≠ [] := by
  cases cs with
  | nil => simp [splitPath]
  | cons c cs =>
    unfold splitPath
    split
    · simp
    · split <;> simp

theorem splitPath_dot (xs ys : List Char) :
    splitPath (xs++ '.'::ys) = splitPath xs++splitPath ys := by
  induction xs with
  | nil => simp [splitPath, isSeparator]
  | cons x xs ih =>
    rw [List.cons_append, splitPath, ih, splitPath]
    by_cases hx : isSeparator x = true
    · rw [if_pos hx, if_pos hx]
      rfl
    · rw [if_neg hx, if_neg hx]
      cases hs : splitPath xs with
      | nil => exact absurd hs (splitPath_ne_nil xs)
      | cons p ps => rfl

theorem splitPath_plain {cs : List Char} (h : ∀ c ∈ cs, isSeparator c = false) :
    splitPath cs = [cs] := by
  induction cs with
  | nil => rfl
  | cons c cs ih =>
    have hc := h c List.mem_cons_self
    rw [splitPath, ih (fun d hd => h d (List.mem_cons_of_mem _ hd)), hc]
    rfl

theorem toList_ne_nil {s : String} (h : s ≠ "") : s.toList ≠ [] := by
  intro he
  apply h
  rw [← String.ofList_toList (s := s), he]

def keyParts (key : String) : List String := if key = "" then [] else [key]

theorem pathParts_key {key : String} (h : PlainKey key) : pathParts key = keyParts key := by
  unfold pathParts keyParts
  rw [splitPath_plain h]
  by_cases hne : key = ""
  · simp [hne]
  · simp [hne, toList_ne_nil hne]

theorem pathParts_dot (base rest : String) :
    pathParts (base++"."++rest) = pathParts base++pathParts rest := by
  have hl : (base++"."++rest).toList = base.toList++ '.'::rest.toList := by simp
  unfold pathParts
  rw [hl, splitPath_dot, List.filter_append, List.map_append]

theorem pathParts_empty : pathParts "" = [] := by decide

theorem afterMarker_none {cs : List Char} (h : '[' ∉ cs) : afterMarker cs = none := by
  induction cs with
  | nil => rfl
  | cons c cs ih =>
    have hc : c ≠ '[' := fun he => h (by simp [he])
    have hcs : '[' ∉ cs := fun hm => h (List.mem_cons_of_mem _ hm)
    rw [afterMarker, ih hcs]
    simp [hc.symm]

theorem afterMarker_append (xs : List Char) {ys rest : List Char} (h : afterMarker ys = some rest) :
    afterMarker (xs++ys) = some rest := by
  induction xs with
  | nil => exact h
  | cons x xs ih => rw [List.cons_append, afterMarker, ih]

theorem afterMarker_suffix {cs rest : List Char} (h : afterMarker cs = some rest) :
    rest <:+ cs := by
  induction cs with
  | nil => simp [afterMarker] at h
  | cons c cs ih =>
    rw [afterMarker] at h
    cases hs : afterMarker cs with
    | some r =>
      rw [hs] at h ih
      exact (ih h).trans (List.suffix_cons c cs)
    | none =>
      rw [hs] at h
      simp only [Option.ite_none_right_eq_some, Option.some.injEq] at h
      rw [← h.2]
      exact (List.drop_suffix 2 cs).trans (List.suffix_cons c cs)

-- a marker ends in a dot, so none begins in `zs` and ends in `ys`
theorem afterMarker_dot (zs : List Char) {ys : List Char} (h : '[' ∉ ys) :
    afterMarker (zs++ '.'::ys) = (afterMarker (zs++['.'])).map (fun rest => rest++ys) := by
  induction zs with
  | nil =>
    have h1 : afterMarker ('.'::ys) = none := afterMarker_none (by simp [h])
    have h2 : afterMarker ['.'] = none := by decide
    simp [h1, h2]
  | cons z zs ih =>
    rw [List.cons_append, List.cons_append, afterMarker, ih, afterMarker]
    cases hs : afterMarker (zs++['.']) with
    | some rest => rfl
    | none =>
      match zs with
      | [] => simp
      | [a] =>
        have hp : "[].".toList.isPrefixOf (z::a:: '.'::ys) = "[].".toList.isPrefixOf [z,a,'.'] := rfl
        simp only [List.cons_append, List.nil_append, Option.map_none, hp]
        split <;> rfl
      | a::b::zs =>
        have hp : ∀ l, "[].".toList.isPrefixOf (z::a::b::l) = "[].".toList.isPrefixOf [z,a,b] :=
          fun l => rfl
        simp only [List.cons_append, Option.map_none, hp]
        split
        · simp
        · rfl

/-- What the names under `pre` begin with, once cut back. -/
def relBase (pre : String) : String := if pre = "" then "" else relativeFieldName (pre++".")

theorem relativeFieldName_dot (pre : String) {rest : String} (h : '[' ∉ rest.toList) :
    relativeFieldName (pre++"."++rest) = relativeFieldName (pre++".")++rest := by
  have hl : (pre++"."++rest).toList = pre.toList++ '.'::rest.toList := by simp
  have hd : (pre++".").toList = pre.toList++['.'] := by simp
  unfold relativeFieldName
  rw [hl, hd, afterMarker_dot _ h]
  cases hs : afterMarker (pre.toList++['.']) with
  | some r => simp [String.ofList_append]
  | none => rfl

theorem relBase_ends (pre : String) : relBase pre = "" ∨ ∃ b, relBase pre = b++"." := by
  unfold relBase relativeFieldName
  by_cases hp : pre = ""
  · exact Or.inl (if_pos hp)
  rw [if_neg hp]
  cases hs : afterMarker (pre++".").toList with
  | none => exact Or.inr ⟨pre,rfl⟩
  | some rest =>
    have hsuf := afterMarker_suffix hs
    have hl : (pre++".").toList = pre.toList++['.'] := by simp
    rw [hl] at hsuf
    rcases List.suffix_concat_iff.mp hsuf with he | ⟨t,ht,_⟩
    · exact Or.inl (by simp [he])
    · refine Or.inr ⟨String.ofList t,?_⟩
      have ho : String.ofList (t++['.']) = String.ofList t++"." := String.ofList_append
      rw [ht]
      exact ho

theorem relativeFieldName_fullKey (pre : String) {key : String} (h : PlainKey key) :
    relativeFieldName (fullKey pre key) = relBase pre++key := by
  unfold fullKey relBase
  by_cases hp : pre = ""
  · rw [if_pos hp, if_pos hp]
    unfold relativeFieldName
    rw [afterMarker_none h.no_bracket]
    simp
  · rw [if_neg hp, if_neg hp]
    exact relativeFieldName_dot pre h.no_bracket

theorem relBase_fullKey {pre key : String} (h : PlainKey key) (hne : fullKey pre key ≠ "") :
    relBase (fullKey pre key) = relBase pre++key++"." := by
  have hk : '[' ∉ (key++".").toList := by simp [h.no_bracket]
  unfold relBase
  rw [if_neg hne]
  unfold fullKey
  by_cases hp : pre = ""
  · rw [if_pos hp, if_pos hp]
    unfold relativeFieldName
    rw [afterMarker_none hk]
    simp
  · rw [if_neg hp, if_neg hp, String.append_assoc, relativeFieldName_dot pre hk,
      String.append_assoc]

def segments (pre : String) : List String := pathParts (relBase pre)

theorem segments_root : segments "" = [] := by decide

theorem segments_element (path : String) : segments (path++"[]") = [] := by
  have hl : (path++"[]"++".").toList = path.toList++['[',']','.'] := by simp
  have hm : afterMarker ['[',']','.'] = some [] := by decide
  have hne : path++"[]" ≠ "" := by
    intro he
    have h0 := congrArg String.toList he
    simp at h0
  unfold segments relBase relativeFieldName
  rw [if_neg hne, hl, afterMarker_append path.toList hm]
  exact pathParts_empty

theorem pathParts_relBase (pre : String) {key : String} (h : PlainKey key) :
    pathParts (relBase pre++key) = segments pre++keyParts key := by
  unfold segments
  rcases relBase_ends pre with he | ⟨b,he⟩
  · rw [he, pathParts_empty, String.empty_append, pathParts_key h]
    rfl
  · have hb := pathParts_dot b ""
    rw [pathParts_empty, String.append_empty, List.append_nil] at hb
    rw [he, pathParts_dot, pathParts_key h, hb]

theorem pathParts_relative (pre : String) {key : String} (h : PlainKey key) :
    pathParts (relativeFieldName (fullKey pre key)) = segments pre++keyParts key := by
  rw [relativeFieldName_fullKey pre h, pathParts_relBase pre h]

theorem segments_fullKey (pre : String) {key : String} (h : PlainKey key) :
    segments (fullKey pre key) = segments pre++keyParts key := by
  by_cases hne : fullKey pre key = ""
  · unfold fullKey at hne ⊢
    by_cases hp : pre = ""
    · rw [if_pos hp] at hne ⊢
      rw [hp, hne]
      decide
    · rw [if_neg hp] at hne
      have h0 := congrArg String.toList hne
      simp at h0
  · have hd := pathParts_dot (relBase pre++key) ""
    rw [pathParts_empty, String.append_empty, List.append_nil] at hd
    rw [← pathParts_relBase pre h, ← hd]
    unfold segments
    rw [relBase_fullKey h hne]

theorem not_skip_fullKey {pre key : String} (hp : shouldSkipField pre = false)
    (hk : shouldSkipField key = false) : shouldSkipField (fullKey pre key) = false := by
  unfold fullKey
  by_cases he : pre = ""
  · rw [if_pos he]
    exact hk
  · rw [if_neg he]
    have hl : (pre++"."++key).toList = pre.toList++ '.'::key.toList := by simp
    unfold shouldSkipField at hp hk ⊢
    rw [includes_eq_false_iff] at hp hk ⊢
    rw [hl]
    exact not_infix_sep (by decide) hp hk

theorem not_skip_element {path : String} (hp : shouldSkipField path = false) :
    shouldSkipField (path++"[]") = false := by
  have hl : (path++"[]").toList = path.toList++ '['::[']'] := by simp
  unfold shouldSkipField at hp ⊢
  rw [includes_eq_false_iff] at hp ⊢
  rw [hl]
  exact not_infix_sep (by decide) hp (by decide)

mutual
/-- Keys are distinct, without separators and not skipped; no object that
is the value of a key is empty. -/
def WellFormed : Members → Prop
  | [] => True
  | (key,value)::rest =>
    key ∉ rest.map Prod.fst ∧ PlainKey key ∧ shouldSkipField key = false ∧
      WellValue value ∧ WellFormed rest
termination_by structural fields => fields

def WellValue : Json → Prop
  | .prim _ => True
  | .arr items => WellItems items
  | .obj fields => fields ≠ [] ∧ WellFormed fields
termination_by structural value => value

def WellItems : List Json → Prop
  | [] => True
  | .prim _::rest => WellItems rest
  | .arr items::rest => WellItems items ∧ WellItems rest
  | .obj fields::rest => WellFormed fields ∧ WellItems rest
termination_by structural items => items
end

mutual
def fieldPaths (pre : String) : Members → List String
  | [] => []
  | (key,value)::rest => valuePaths pre key value++fieldPaths pre rest
termination_by structural fields => fields

def valuePaths (pre key : String) : Json → List String
  | .prim _ => [fullKey pre key]
  | .arr items => itemPaths (fullKey pre key++"[]") items
  | .obj fields => fieldPaths (fullKey pre key) fields
termination_by structural value => value

def itemPaths (pre : String) : List Json → List String
  | [] => []
  | .prim _::rest => pre::itemPaths pre rest
  | .obj fields::rest => fieldPaths pre fields++itemPaths pre rest
  | .arr _::rest => itemPaths pre rest
termination_by structural items => items
end

def Known (e : Encoder) (dict : FieldMap) (paths : List String) : Prop :=
  ∀ path ∈ paths, dict.get? (e.index path) = some path

theorem Known.left {e : Encoder} {dict : FieldMap} {ps qs : List String}
    (h : Known e dict (ps++qs)) : Known e dict ps :=
  fun path hp => h path (List.mem_append_left qs hp)

theorem Known.right {e : Encoder} {dict : FieldMap} {ps qs : List String}
    (h : Known e dict (ps++qs)) : Known e dict qs :=
  fun path hp => h path (List.mem_append_right ps hp)

abbrev Write := List String × Json

def applyWrites : Members → List Write → Option Members
  | acc, [] => some acc
  | acc, w::ws => (setNestedValue acc w.2 w.1).bind (fun acc => applyWrites acc ws)

theorem applyWrites_append (acc : Members) (ws vs : List Write) :
    applyWrites acc (ws++vs) = (applyWrites acc ws).bind (fun acc => applyWrites acc vs) := by
  induction ws generalizing acc with
  | nil => rfl
  | cons w ws ih => simp [applyWrites, Option.bind_assoc, ih]

theorem expandTuples_append (d : Decoder) (acc : Members) (ps qs : List Pair) :
    expandTuples d acc (ps++qs) =
      (expandTuples d acc ps).bind (fun acc => expandTuples d acc qs) := by
  induction ps generalizing acc with
  | nil => rfl
  | cons p ps ih => simp [expandTuples, Option.bind_assoc, ih]

def leafValue (e : Encoder) (path key : String) (p : Prim) : Json :=
  decodeEnumValue e.tables (relativeFieldName path) ((leafCode e path key p).getD (.prim p))

def decodeItems (e : Encoder) (dict : FieldMap) (path : String) (items : List Json) :
    Option (List Json) :=
  (compactItems e path items).bind (expandElements ⟨dict,e.tables⟩)

mutual
def arrivals (e : Encoder) (dict : FieldMap) (pre : String) : Members → List Write
  | [] => []
  | (key,value)::rest => valueArrivals e dict pre key value++arrivals e dict pre rest
termination_by structural fields => fields

def valueArrivals (e : Encoder) (dict : FieldMap) (pre key : String) : Json → List Write
  | .prim p => [(segments pre++keyParts key,leafValue e (fullKey pre key) key p)]
  | .arr items => [([key],.arr ((decodeItems e dict (fullKey pre key++"[]") items).getD []))]
  | .obj fields => arrivals e dict (fullKey pre key) fields
termination_by structural value => value
end

mutual
def ArraysDecode (e : Encoder) (dict : FieldMap) (pre : String) : Members → Prop
  | [] => True
  | (key,value)::rest => ValueDecodes e dict pre key value ∧ ArraysDecode e dict pre rest
termination_by structural fields => fields

def ValueDecodes (e : Encoder) (dict : FieldMap) (pre key : String) : Json → Prop
  | .prim _ => True
  | .arr items => ∃ values, decodeItems e dict (fullKey pre key++"[]") items = some values
  | .obj fields => ArraysDecode e dict (fullKey pre key) fields
termination_by structural value => value
end

section Arrival
variable {e : Encoder} {dict : FieldMap}

theorem getIndex_of_not_skip {path : String} (h : shouldSkipField path = false) :
    e.getIndex path = e.index path := by
  simp [Encoder.getIndex, h]

theorem leafPairs_of_not_skip {pre key : String} (p : Prim)
    (h : shouldSkipField (fullKey pre key) = false) :
    leafPairs e pre key p = [.leaf (e.index (fullKey pre key))
      ((leafCode e (fullKey pre key) key p).getD (.prim p))] := by
  have hne : ((e.index (fullKey pre key) : ℕ) : ℤ) ≠ -1 := by omega
  simp [leafPairs, getIndex_of_not_skip h, hne]

theorem expandLeaf_known {pre key : String} (hp : PlainKey key)
    (hd : dict.get? (e.index (fullKey pre key)) = some (fullKey pre key))
    (acc : Members) (value : Json) :
    expandLeaf ⟨dict,e.tables⟩ acc (e.index (fullKey pre key)) value =
      setNestedValue acc (decodeEnumValue e.tables (relativeFieldName (fullKey pre key)) value)
        (segments pre++keyParts key) := by
  have hn : ¬((e.index (fullKey pre key) : ℕ) : ℤ) < 0 := by omega
  unfold expandLeaf fieldName
  rw [if_neg hn]
  simp only [Int.toNat_natCast, hd]
  by_cases he : fullKey pre key = ""
  · have hs := pathParts_relative pre hp
    rw [he, show relativeFieldName "" = "" by decide, pathParts_empty] at hs
    simp [he, ← hs, setNestedValue, Option.filter]
  · simp [Option.filter, he, pathParts_relative pre hp]

theorem expandTuples_leaf {pre key : String} (p : Prim) (hp : PlainKey key)
    (hs : shouldSkipField (fullKey pre key) = false)
    (hd : dict.get? (e.index (fullKey pre key)) = some (fullKey pre key)) (acc : Members) :
    expandTuples ⟨dict,e.tables⟩ acc (leafPairs e pre key p) =
      applyWrites acc [(segments pre++keyParts key,leafValue e (fullKey pre key) key p)] := by
  rw [leafPairs_of_not_skip p hs]
  simp [expandTuples, expandPair, applyWrites, expandLeaf_known hp hd, leafValue]

mutual
theorem compactFields_arrivals {pre : String} (hs : shouldSkipField pre = false) :
    ∀ (fields : Members), WellFormed fields → Known e dict (fieldPaths pre fields) →
      ArraysDecode e dict pre fields →
      ∃ pairs, compactFields e pre fields = some pairs ∧ ∀ acc,
        expandTuples ⟨dict,e.tables⟩ acc pairs = applyWrites acc (arrivals e dict pre fields)
  | [], _, _, _ => ⟨[],rfl,fun acc => rfl⟩
  | (key,value)::rest, hw, hk, ha => by
    rw [WellFormed] at hw
    rw [fieldPaths] at hk
    rw [ArraysDecode] at ha
    obtain ⟨ps,hps,hpe⟩ := compactValue_arrivals hs value hw.2.1 hw.2.2.1 hw.2.2.2.1 hk.left ha.1
    obtain ⟨qs,hqs,hqe⟩ := compactFields_arrivals hs rest hw.2.2.2.2 hk.right ha.2
    refine ⟨ps++qs,?_,?_⟩
    · simp [compactFields, hps, hqs]
    · intro acc
      rw [expandTuples_append, arrivals, applyWrites_append, hpe acc]
      simp [hqe]
termination_by structural fields => fields

theorem compactValue_arrivals {pre key : String} (hs : shouldSkipField pre = false) :
    ∀ (value : Json), PlainKey key → shouldSkipField key = false → WellValue value →
      Known e dict (valuePaths pre key value) → ValueDecodes e dict pre key value →
      ∃ pairs, compactValue e pre key value = some pairs ∧ ∀ acc,
        expandTuples ⟨dict,e.tables⟩ acc pairs = applyWrites acc (valueArrivals e dict pre key value)
  | .prim p, hp, hks, _, hk, _ => by
    have hd := hk (fullKey pre key) (by simp [valuePaths])
    refine ⟨leafPairs e pre key p,by simp [compactValue],?_⟩
    intro acc
    rw [expandTuples_leaf p hp (not_skip_fullKey hs hks) hd, valueArrivals]
  | .arr items, hp, hks, hw, hk, ha => by
    rw [ValueDecodes] at ha
    obtain ⟨values,hv⟩ := ha
    have hd := hv
    unfold decodeItems at hd
    rw [Option.bind_eq_some_iff] at hd
    obtain ⟨elements,hc,he⟩ := hd
    refine ⟨[.frame key elements],by simp [compactValue, hc],?_⟩
    intro acc
    simp [expandTuples, expandPair, he, valueArrivals, hv, applyWrites, setNestedValue]
  | .obj fields, hp, hks, hw, hk, ha => by
    rw [WellValue] at hw
    rw [valuePaths] at hk
    rw [ValueDecodes] at ha
    rw [compactValue, valueArrivals]
    exact compactFields_arrivals (not_skip_fullKey hs hks) fields hw.2 hk ha
termination_by structural value => value
end

mutual
theorem arraysDecode_of_expand {pre : String} :
    ∀ (fields : Members) {pairs : List Pair} {acc out : Members},
      compactFields e pre fields = some pairs →
      expandTuples ⟨dict,e.tables⟩ acc pairs = some out → ArraysDecode e dict pre fields
  | [], _, _, _, _, _ => by simp [ArraysDecode]
  | (key,value)::rest, pairs, acc, out, hc, he => by
    rw [compactFields, Option.bind_eq_some_iff] at hc
    obtain ⟨ps,hps,hc⟩ := hc
    rw [Option.map_eq_some_iff] at hc
    obtain ⟨qs,hqs,rfl⟩ := hc
    rw [expandTuples_append, Option.bind_eq_some_iff] at he
    obtain ⟨mid,hm,he⟩ := he
    rw [ArraysDecode]
    exact ⟨valueDecodes_of_expand value hps hm,arraysDecode_of_expand rest hqs he⟩
termination_by structural fields => fields

theorem valueDecodes_of_expand {pre key : String} :
    ∀ (value : Json) {pairs : List Pair} {acc out : Members},
      compactValue e pre key value = some pairs →
      expandTuples ⟨dict,e.tables⟩ acc pairs = some out → ValueDecodes e dict pre key value
  | .prim p, _, _, _, _, _ => by simp [ValueDecodes]
  | .arr items, pairs, acc, out, hc, he => by
    rw [compactValue, Option.map_eq_some_iff] at hc
    obtain ⟨elements,hc,rfl⟩ := hc
    simp only [expandTuples, expandPair, Option.bind_eq_some_iff, Option.map_eq_some_iff] at he
    obtain ⟨mid,⟨values,hv,_⟩,_⟩ := he
    rw [ValueDecodes]
    exact ⟨values,by simp [decodeItems, hc, hv]⟩
  | .obj fields, pairs, acc, out, hc, he => by
    rw [compactValue] at hc
    rw [ValueDecodes]
    exact arraysDecode_of_expand fields hc he
termination_by structural value => value
end

end Arrival

end Iotistica.DictionaryCodec
