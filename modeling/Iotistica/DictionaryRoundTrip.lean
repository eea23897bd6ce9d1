import Iotistica.DictionaryRebuild

/-!
# The round trip

A message comes back, up to the order of its keys, exactly when its leaves
and arrays are where the cloud writes them, its names can be assigned, its
values decode to themselves and its arrays hold objects of the same kind.
-/

set_option autoImplicit false

namespace Iotistica.DictionaryCodec
open Iotistica Iotistica.AgentDictionary Iotistica.CloudDictionary

mutual
def SameValue : Json → Json → Prop
  | got, .prim p => got = .prim p
  | got, .arr items => ∃ values, got = .arr values ∧ SameItems values items
  | got, .obj fields =>
    ∃ members, got = .obj members ∧ SameFields members fields ∧ members.length = fields.length
termination_by structural _ value => value

def SameItems : List Json → List Json → Prop
  | got, [] => got = []
  | got, item::rest => ∃ v vs, got = v::vs ∧ SameValue v item ∧ SameItems vs rest
termination_by structural _ items => items

def SameFields : Members → Members → Prop
  | _, [] => True
  | members, (key,value)::rest =>
    (∃ v, members.lookup key = some v ∧ SameValue v value) ∧ SameFields members rest
termination_by structural _ fields => fields
end

def RoundTrip (e : Encoder) (dict : FieldMap) (m : Members) : Prop :=
  ∃ pairs out, compactWithDictionary e m = some pairs ∧
    expandMessage ⟨dict,e.tables⟩ pairs = some out ∧ SameValue out (.obj m)

/-- A string travels as it is, or as a code that the tables of the field
turn back into it; a number is not a code of the field. -/
def Survives (e : Encoder) (path key : String) (p : Prim) : Prop :=
  match leafCode e path key p, p with
  | some (.prim (.num q)), .str s => reverseCode e.tables (relativeFieldName path) q = some s
  | some _, _ => False
  | none, .num q => reverseCode e.tables (relativeFieldName path) q = none
  | none, _ => True

mutual
def ValuesOk (e : Encoder) (pre : String) : Members → Prop
  | [] => True
  | (key,value)::rest => ValueOk e pre key value ∧ ValuesOk e pre rest
termination_by structural fields => fields

def ValueOk (e : Encoder) (pre key : String) : Json → Prop
  | .prim p => Survives e (fullKey pre key) key p
  | .arr items => ItemsOk e (fullKey pre key++"[]") items
  | .obj fields => ValuesOk e (fullKey pre key) fields
termination_by structural value => value

def ItemsOk (e : Encoder) (pre : String) : List Json → Prop
  | [] => True
  | .obj fields::rest =>
    (Upright 0 fields ∧ Landing fields ∧ ValuesOk e pre fields) ∧ ItemsOk e pre rest
  | .prim _::_ => False
  | .arr _::_ => False
termination_by structural items => items
end

theorem leafValue_iff (e : Encoder) (path key : String) (p : Prim) :
    leafValue e path key p = .prim p ↔ Survives e path key p := by
  unfold leafValue Survives
  cases hc : leafCode e path key p with
  | none =>
    cases p with
    | null => simp [decodeEnumValue]
    | bool b => simp [decodeEnumValue]
    | str s => simp [decodeEnumValue]
    | num q =>
      simp only [Option.getD_none, decodeEnumValue]
      cases hr : reverseCode e.tables (relativeFieldName path) q with
      | none => simp
      | some s => simp
  | some code =>
    cases p with
    | null => simp [leafCode] at hc
    | bool b => simp [leafCode] at hc
    | num q => simp [leafCode] at hc
    | str s =>
      rcases leafCode_isCode hc with ⟨q,rfl⟩ | rfl | rfl
      · simp only [Option.getD_some, decodeEnumValue]
        cases hr : reverseCode e.tables (relativeFieldName path) q with
        | none => simp
        | some t => simp
      · simp [decodeEnumValue]
      · simp [decodeEnumValue]

theorem lookup_setMember_ne {key k : String} (value : Json) (fields : Members) (h : k ≠ key) :
    (setMember key value fields).lookup k = fields.lookup k := by
  induction fields with
  | nil => exact lookup_cons_ne h value []
  | cons f fields ih =>
    obtain ⟨k',v⟩ := f
    by_cases he : key = k'
    · rw [setMember, if_pos he.symm, lookup_cons_ne h, lookup_cons_ne (he ▸ h)]
    · rw [setMember_cons_ne he, List.lookup_cons, List.lookup_cons, ih]

theorem SameFields.setMember {members : Members} {key : String} (value : Json) {fields : Members}
    (hk : key ∉ fields.map Prod.fst) (h : SameFields members fields) :
    SameFields (setMember key value members) fields := by
  induction fields with
  | nil => simp [SameFields]
  | cons f fields ih =>
    obtain ⟨k,v⟩ := f
    rw [SameFields] at h ⊢
    have hne : k ≠ key := fun he => hk (by simp [he])
    rw [lookup_setMember_ne value members hne]
    exact ⟨h.1,ih (fun hm => hk (List.mem_cons_of_mem _ hm)) h.2⟩

mutual
theorem weight_le_of_same (n : ℕ) : ∀ (members fields : Members), WellFormed fields →
    SameFields members fields → weight n fields ≤ weight n members
  | _, [], _, _ => by simp [weight]
  | members, (key,value)::rest, hw, h => by
    rw [WellFormed] at hw
    rw [SameFields] at h
    obtain ⟨⟨v,hl,hv⟩,hr⟩ := h
    have h1 := valueWeight_le_of_same n v value hw.2.2.2.1 hv
    have h2 := weight_le_of_same n (setMember key (.obj []) members) rest hw.2.2.2.2
      (hr.setMember _ hw.1)
    have h3 := weight_setMember (.obj []) n hl
    have h0 : valueWeight n (.obj []) = 0 := by simp [valueWeight, weight]
    rw [weight]
    omega
termination_by structural _ fields => fields

theorem valueWeight_le_of_same (n : ℕ) : ∀ got value : Json, WellValue value →
    SameValue got value → valueWeight n value ≤ valueWeight n got
  | got, .prim p, _, h => by
    rw [SameValue] at h
    rw [h]
  | got, .arr items, _, h => by
    rw [SameValue] at h
    obtain ⟨values,rfl,_⟩ := h
    simp [valueWeight]
  | got, .obj fields, hw, h => by
    rw [WellValue] at hw
    rw [SameValue] at h
    obtain ⟨members,rfl,hs,_⟩ := h
    rw [valueWeight, valueWeight]
    exact weight_le_of_same (n+1) members fields hw.2 hs
termination_by structural _ value => value
end

section Scope
variable {e : Encoder} {dict : FieldMap}

theorem arrivals_scope {pre : String} (hseg : segments pre = []) {fields : Members}
    (hw : WellFormed fields) (hup : Upright 0 fields) :
    arrivals e dict pre fields = localWrites e dict pre fields := by
  have hz : (segments pre).length = 0 := by rw [hseg]; rfl
  rw [arrivals_upright e dict pre fields hw (by rw [hz]; exact hup), hseg]
  simp

/-- What comes back of an object has the weight of the object only when it
is the image. -/
theorem expanded_eq_image {pre : String} (hseg : segments pre = [])
    (hs : shouldSkipField pre = false) {fields out : Members} {pairs : List Pair}
    (hw : WellFormed fields) (hk : Known e dict (fieldPaths pre fields))
    (hc : compactFields e pre fields = some pairs)
    (he : expandTuples ⟨dict,e.tables⟩ [] pairs = some out) (hsame : SameFields out fields) :
    Upright 0 fields ∧ Landing fields ∧ out = image e dict pre fields := by
  have ha := arraysDecode_of_expand fields hc he
  obtain ⟨ps,hps,hex⟩ := compactFields_arrivals hs fields hw hk ha
  have hpe : ps = pairs := Option.some.inj (hps.symm.trans hc)
  rw [← hpe, hex []] at he
  have hz : (segments pre).length = 0 := by rw [hseg]; rfl
  have h1 := weight_le_of_same 0 out fields hw hsame
  have h2 := weight_applyWrites (n := 0) (arrivals_light fields) he
  have h3 := totalLength_arrivals_le e dict pre fields hw
  have h0 : weight 0 [] = 0 := by simp [weight]
  rw [hz] at h3
  have hup : Upright 0 fields := by
    have hu := upright_of_weight e dict pre fields hw (by rw [hz]; omega)
    rwa [hz] at hu
  rw [arrivals_scope hseg hw hup] at he
  have hland : Landing fields :=
    landing_of_weight e dict pre fields hw 0 [] out (fresh_nil fields) he (by omega)
  have himg := applyWrites_localWrites e dict pre fields hw hland [] (fresh_nil fields)
  refine ⟨hup,hland,?_⟩
  exact Option.some.inj (he.symm.trans himg)

theorem expanded_of_ok {pre : String} (hseg : segments pre = [])
    (hs : shouldSkipField pre = false) {fields : Members}
    (hw : WellFormed fields) (hk : Known e dict (fieldPaths pre fields))
    (hup : Upright 0 fields) (hland : Landing fields) (ha : ArraysDecode e dict pre fields) :
    ∃ pairs, compactFields e pre fields = some pairs ∧
      expandTuples ⟨dict,e.tables⟩ [] pairs = some (image e dict pre fields) := by
  obtain ⟨pairs,hc,hex⟩ := compactFields_arrivals hs fields hw hk ha
  refine ⟨pairs,hc,?_⟩
  rw [hex [], arrivals_scope hseg hw hup,
    applyWrites_localWrites e dict pre fields hw hland [] (fresh_nil fields)]
  rfl

def Comes (e : Encoder) (dict : FieldMap) (pre : String) (fields : Members) : Prop :=
  ∃ pairs out, compactFields e pre fields = some pairs ∧
    expandTuples ⟨dict,e.tables⟩ [] pairs = some out ∧
    SameFields out fields ∧ out.length = fields.length

theorem comes_iff {pre : String} (hseg : segments pre = []) (hs : shouldSkipField pre = false)
    {fields : Members} (hw : WellFormed fields) (hk : Known e dict (fieldPaths pre fields))
    (hv : ArraysDecode e dict pre fields ∧ SameFields (image e dict pre fields) fields ↔
      ValuesOk e pre fields) :
    Comes e dict pre fields ↔ Upright 0 fields ∧ Landing fields ∧ ValuesOk e pre fields := by
  constructor
  · intro h
    obtain ⟨pairs,out,hc,he,hsame,_⟩ := h
    obtain ⟨hup,hland,himg⟩ := expanded_eq_image hseg hs hw hk hc he hsame
    rw [himg] at hsame
    exact ⟨hup,hland,hv.mp ⟨arraysDecode_of_expand fields hc he,hsame⟩⟩
  · intro h
    obtain ⟨hup,hland,hvals⟩ := h
    obtain ⟨ha,hsame⟩ := hv.mpr hvals
    obtain ⟨pairs,hc,he⟩ := expanded_of_ok hseg hs hw hk hup hland ha
    exact ⟨pairs,_,hc,he,hsame,image_length e dict pre fields⟩

theorem decodeItems_obj {pre : String} {fields : Members} {rest values : List Json} :
    decodeItems e dict pre (.obj fields::rest) = some values ↔
      ∃ pairs out others, compactFields e pre fields = some pairs ∧
        expandTuples ⟨dict,e.tables⟩ [] pairs = some out ∧
        decodeItems e dict pre rest = some others ∧ values = .obj out::others := by
  unfold decodeItems
  rw [compactItems]
  constructor
  · intro h
    obtain ⟨elements,hc,he⟩ := Option.bind_eq_some_iff.mp h
    obtain ⟨pairs,hp,hc⟩ := Option.bind_eq_some_iff.mp hc
    obtain ⟨others,ho,rfl⟩ := Option.map_eq_some_iff.mp hc
    rw [expandElements] at he
    obtain ⟨out,hout,he⟩ := Option.bind_eq_some_iff.mp he
    obtain ⟨items,hi,rfl⟩ := Option.map_eq_some_iff.mp he
    exact ⟨pairs,out,items,hp,hout,by simp [ho, hi],rfl⟩
  · intro h
    obtain ⟨pairs,out,items,hp,hout,hr,rfl⟩ := h
    obtain ⟨others,ho,hi⟩ := Option.bind_eq_some_iff.mp hr
    simp [hp, ho, expandElements, hout, hi]

theorem decodeItems_prim {pre : String} {p : Prim} {rest values : List Json}
    (h : decodeItems e dict pre (.prim p::rest) = some values) :
    ∃ out others, values = .obj out::others := by
  unfold decodeItems at h
  rw [compactItems] at h
  obtain ⟨elements,hc,he⟩ := Option.bind_eq_some_iff.mp h
  obtain ⟨others,_,rfl⟩ := Option.map_eq_some_iff.mp hc
  rw [expandElements] at he
  obtain ⟨out,_,he⟩ := Option.bind_eq_some_iff.mp he
  obtain ⟨items,_,rfl⟩ := Option.map_eq_some_iff.mp he
  exact ⟨out,items,rfl⟩

mutual
theorem valuesOk_iff (pre : String) (hs : shouldSkipField pre = false) :
    ∀ fields : Members, WellFormed fields → Known e dict (fieldPaths pre fields) →
    ∀ acc, Fresh acc fields →
    (ArraysDecode e dict pre fields ∧ SameFields (acc++image e dict pre fields) fields ↔
      ValuesOk e pre fields)
  | [], _, _, _, _ => by simp [ArraysDecode, SameFields, ValuesOk]
  | (key,value)::rest, hw, hk, acc, hf => by
    rw [WellFormed] at hw
    rw [fieldPaths] at hk
    have hv := valueOk_iff pre key hs value hw.2.2.1 hw.2.2.2.1 hk.left
    have hr := valuesOk_iff pre hs rest hw.2.2.2.2 hk.right
      (acc++[(key,valueImage e dict pre key value)]) (hf.step _ hw.1)
    have hl : (acc++(key,valueImage e dict pre key value)::image e dict pre rest).lookup key =
        some (valueImage e dict pre key value) := by
      rw [List.lookup_append, hf key (by simp)]
      simp
    rw [List.append_assoc] at hr
    rw [ArraysDecode, image, SameFields, ValuesOk, ← hv, ← hr, hl]
    simp only [Option.some.injEq, exists_eq_left', List.cons_append, List.nil_append]
    tauto
termination_by structural fields => fields

theorem valueOk_iff (pre key : String) (hs : shouldSkipField pre = false) :
    ∀ value : Json, shouldSkipField key = false → WellValue value →
    Known e dict (valuePaths pre key value) →
    (ValueDecodes e dict pre key value ∧ SameValue (valueImage e dict pre key value) value ↔
      ValueOk e pre key value)
  | .prim p, _, _, _ => by
    rw [ValueDecodes, valueImage, SameValue, ValueOk, leafValue_iff, true_and]
  | .arr items, hks, hw, hk => by
    rw [WellValue] at hw
    rw [valuePaths] at hk
    have hi := itemsOk_iff (fullKey pre key++"[]") (segments_element _)
      (not_skip_element (not_skip_fullKey hs hks)) items hw hk
    rw [ValueDecodes, valueImage, SameValue, ValueOk, ← hi]
    constructor
    · rintro ⟨⟨values,hd⟩,got,hg,hsame⟩
      rw [hd] at hg
      simp only [Option.getD_some, Json.arr.injEq] at hg
      exact ⟨values,hd,hg ▸ hsame⟩
    · rintro ⟨values,hd,hsame⟩
      rw [hd]
      exact ⟨⟨values,rfl⟩,values,rfl,hsame⟩
  | .obj fields, hks, hw, hk => by
    rw [WellValue] at hw
    rw [valuePaths] at hk
    have hi := valuesOk_iff (fullKey pre key) (not_skip_fullKey hs hks) fields hw.2 hk []
      (fresh_nil fields)
    rw [ValueDecodes, valueImage, SameValue, ValueOk, ← hi]
    simp [image_length]
termination_by structural value => value

theorem itemsOk_iff (pre : String) (hseg : segments pre = []) (hs : shouldSkipField pre = false) :
    ∀ items : List Json, WellItems items → Known e dict (itemPaths pre items) →
    ((∃ values, decodeItems e dict pre items = some values ∧ SameItems values items) ↔
      ItemsOk e pre items)
  | [], _, _ => by simp [decodeItems, compactItems, expandElements, SameItems, ItemsOk]
  | .prim p::rest, _, _ => by
    rw [ItemsOk, iff_false]
    rintro ⟨values,hd,hsame⟩
    obtain ⟨out,others,rfl⟩ := decodeItems_prim hd
    rw [SameItems] at hsame
    obtain ⟨v,vs,he,hv,_⟩ := hsame
    rw [SameValue] at hv
    simp [hv] at he
  | .arr items::rest, _, _ => by simp [decodeItems, compactItems, ItemsOk]
  | .obj fields::rest, hw, hk => by
    rw [WellItems] at hw
    rw [itemPaths] at hk
    have hv := valuesOk_iff pre hs fields hw.1 hk.left [] (fresh_nil fields)
    rw [List.nil_append] at hv
    have hc := comes_iff hseg hs hw.1 hk.left hv
    have hr := itemsOk_iff pre hseg hs rest hw.2 hk.right
    rw [ItemsOk, ← hc, ← hr]
    simp only [decodeItems_obj, SameItems]
    constructor
    · rintro ⟨values,⟨pairs,out,others,hp,hout,hd,rfl⟩,v,vs,he,hv,hvs⟩
      rw [SameValue] at hv
      obtain ⟨members,rfl,hsame,hlen⟩ := hv
      simp only [List.cons.injEq, Json.obj.injEq] at he
      obtain ⟨rfl,rfl⟩ := he
      exact ⟨⟨pairs,_,hp,hout,hsame,hlen⟩,_,hd,hvs⟩
    · rintro ⟨⟨pairs,out,hp,hout,hsame,hlen⟩,others,hd,hvs⟩
      refine ⟨_,⟨pairs,out,others,hp,hout,hd,rfl⟩,_,_,rfl,?_,hvs⟩
      rw [SameValue]
      exact ⟨out,rfl,hsame,hlen⟩
termination_by structural items => items
end

end Scope

/-- A message that is one array under `$root` is taken for that array. -/
def RootArray : Members → Prop
  | [(key,.arr _)] => key = "$root"
  | _ => False

theorem expandMessage_obj {d : Decoder} {pairs : List Pair} {members : Members} :
    expandMessage d pairs = some (.obj members) ↔
      expandTuples d [] pairs = some members ∧ ∀ elements, pairs ≠ [.frame "$root" elements] := by
  unfold expandMessage
  split
  · rename_i key elements
    by_cases hk : key = "$root"
    · simp [hk]
    · simp [hk]
  · rename_i hne
    have hp : ∀ elements, pairs ≠ [.frame "$root" elements] := fun elements => hne _ elements
    simp [hp]

theorem rootArray_of_frame {d : Decoder} {elements : List (List Pair)} {out m : Members}
    (he : expandTuples d [] [.frame "$root" elements] = some out) (hs : SameFields out m)
    (hl : out.length = m.length) : RootArray m := by
  simp only [expandTuples, expandPair, Option.bind_eq_some_iff, Option.map_eq_some_iff,
    Option.some.injEq] at he
  obtain ⟨mid,⟨values,_,rfl⟩,rfl⟩ := he
  have ho : assignMember [] "$root" (.arr values) = [("$root",.arr values)] := by
    simp [assignMember, setMember]
  rw [ho] at hs hl
  obtain ⟨f,rfl⟩ := List.length_eq_one_iff.mp hl.symm
  obtain ⟨key,value⟩ := f
  rw [SameFields] at hs
  obtain ⟨⟨v,hv,hsame⟩,_⟩ := hs
  rw [List.lookup_cons] at hv
  by_cases hk : key = "$root"
  · have hb : (key == "$root") = true := by simpa using hk
    rw [hb, Option.some.injEq] at hv
    rw [← hv] at hsame
    cases value with
    | prim p => simp [SameValue] at hsame
    | arr items => exact hk
    | obj fields => simp [SameValue] at hsame
  · have hb : (key == "$root") = false := by simpa using hk
    simp [hb] at hv

/-- A message comes back exactly when it is upright, its names land and its
values survive. -/
theorem message_comes_back_iff (e : Encoder) (dict : FieldMap) (m : Members) (hw : WellFormed m)
    (hk : Known e dict (fieldPaths "" m)) :
    RoundTrip e dict m ↔
      Upright 0 m ∧ Landing m ∧ ValuesOk e "" m ∧ ¬RootArray m := by
  have hs : shouldSkipField "" = false := by decide
  have hv := valuesOk_iff "" hs m hw hk [] (fresh_nil m)
  rw [List.nil_append] at hv
  have hc := comes_iff segments_root hs hw hk hv
  constructor
  · intro h
    obtain ⟨pairs,out,hp,ho,hsame⟩ := h
    rw [SameValue] at hsame
    obtain ⟨members,rfl,hf,hl⟩ := hsame
    obtain ⟨he,hroot⟩ := expandMessage_obj.mp ho
    obtain ⟨hup,hland,hvals⟩ := hc.mp ⟨pairs,members,hp,he,hf,hl⟩
    refine ⟨hup,hland,hvals,?_⟩
    intro hr
    unfold RootArray at hr
    split at hr
    · rename_i key items
      rw [hr] at hp
      simp only [compactWithDictionary, compactFields, compactValue, Option.bind_eq_some_iff,
        Option.map_eq_some_iff, Option.some.injEq] at hp
      obtain ⟨ps,⟨elements,_,rfl⟩,qs,rfl,rfl⟩ := hp
      exact hroot elements rfl
    · exact hr
  · intro h
    obtain ⟨hup,hland,hvals,hroot⟩ := h
    obtain ⟨pairs,members,hp,he,hf,hl⟩ := hc.mpr ⟨hup,hland,hvals⟩
    have hne : ∀ elements, pairs ≠ [.frame "$root" elements] := by
      intro elements hpe
      rw [hpe] at he
      exact hroot (rootArray_of_frame he hf hl)
    refine ⟨pairs,.obj members,hp,expandMessage_obj.mpr ⟨he,hne⟩,?_⟩
    rw [SameValue]
    exact ⟨members,rfl,hf,hl⟩

def telemetryEncoder : Encoder where
  index := fun path => if path = "metric" then 0 else if path = "site.temp" then 1 else 2
  tables := ⟨none,.empty,⟨[("modbus",⟨[("rpm",1)],by decide⟩)],by decide⟩,.empty⟩
  protocol := some "modbus"

def telemetryDictionary : FieldMap :=
  ⟨[(0,"metric"),(1,"site.temp"),(2,"alarms[].code")],by decide⟩

def telemetry : Members :=
  [("metric",.prim (.str "rpm")),("site",.obj [("temp",.prim (.num 21))]),
   ("alarms",.arr [.obj [("code",.prim (.str "E1"))]])]

theorem telemetry_wellFormed : WellFormed telemetry := by
  simp only [telemetry, WellFormed, WellValue, WellItems]
  exact ⟨by simp,by decide,by decide,trivial,
    by simp,by decide,by decide,⟨by simp,by simp,by decide,by decide,trivial,trivial⟩,
    by simp,by decide,by decide,⟨⟨by simp,by decide,by decide,trivial,trivial⟩,trivial⟩,trivial⟩

theorem telemetry_known :
    Known telemetryEncoder telemetryDictionary (fieldPaths "" telemetry) := by
  unfold Known
  decide +kernel

theorem telemetry_upright : Upright 0 telemetry := by
  simp [telemetry, Upright, UprightValue]

theorem telemetry_landing : Landing telemetry := by
  simp [telemetry, Landing, LandingValue, inheritedNames, startsWithIndex, allDigits]

theorem telemetry_valuesOk : ValuesOk telemetryEncoder "" telemetry := by
  have h1 : Survives telemetryEncoder "metric" "metric" (.str "rpm") := by
    show reverseCode telemetryEncoder.tables "metric" 1 = some "rpm"
    decide +kernel
  have h2 : Survives telemetryEncoder "site.temp" "temp" (.num 21) := by
    show reverseCode telemetryEncoder.tables (relativeFieldName "site.temp") 21 = none
    decide +kernel
  have h3 : Survives telemetryEncoder "alarms[].code" "code" (.str "E1") := trivial
  simp only [telemetry, ValuesOk, ValueOk, ItemsOk, Upright, UprightValue, Landing, LandingValue]
  exact ⟨h1,⟨h2,trivial⟩,⟨⟨⟨by decide,trivial⟩,⟨by decide,trivial⟩,h3,trivial⟩,trivial⟩,trivial⟩

theorem telemetry_comes_back : WellFormed telemetry ∧
    Known telemetryEncoder telemetryDictionary (fieldPaths "" telemetry) ∧
    RoundTrip telemetryEncoder telemetryDictionary telemetry := by
  refine ⟨telemetry_wellFormed,telemetry_known,?_⟩
  apply (message_comes_back_iff _ _ _ telemetry_wellFormed telemetry_known).mpr
  exact ⟨telemetry_upright,telemetry_landing,telemetry_valuesOk,by simp [telemetry, RootArray]⟩

def qualityEncoder : Encoder := ⟨fun _ => 0,⟨none,.empty,.empty,.empty⟩,none⟩

def qualityDictionary : FieldMap := ⟨[(0,"quality")],by decide⟩

theorem quality_comes_back_as_code : ¬∀ (e : Encoder) (dict : FieldMap) (m : Members),
    WellFormed m → Known e dict (fieldPaths "" m) → RoundTrip e dict m := by
  intro h
  have hr := h qualityEncoder qualityDictionary [("quality",.prim (.str "GOOD"))]
    (by simp only [WellFormed, WellValue]; exact ⟨by simp,by decide,by decide,trivial,trivial⟩)
    (by unfold Known; decide +kernel)
  obtain ⟨pairs,out,hc,he,hs⟩ := hr
  have hp : compactWithDictionary qualityEncoder [("quality",.prim (.str "GOOD"))] =
      some [.leaf 0 (.prim (.num 1))] := rfl
  rw [hp, Option.some.injEq] at hc
  have hx : expandMessage ⟨qualityDictionary,qualityEncoder.tables⟩
      [.leaf 0 (.prim (.num 1))] = some (.obj [("quality",.prim (.num 1))]) := rfl
  rw [← hc, hx, Option.some.injEq] at he
  simp [← he, SameValue, SameFields] at hs

end Iotistica.DictionaryCodec
