import Iotistica.DictionaryWeights

/-!
# Rebuilding an object

Inside one scope the writes of an upright object are those of a tree walk.
They rebuild the object, with its values as they arrive, unless a name on
the way cannot be assigned or a missing object is taken for an array; then
some leaf is lost and the weight falls behind.
-/

set_option autoImplicit false

namespace Iotistica.DictionaryCodec
open Iotistica Iotistica.AgentDictionary Iotistica.CloudDictionary

def under (key : String) (ws : List Write) : List Write := ws.map (fun w => (key::w.1,w.2))

mutual
def localWrites (e : Encoder) (dict : FieldMap) (pre : String) : Members → List Write
  | [] => []
  | (key,value)::rest => valueWrites e dict pre key value++localWrites e dict pre rest
termination_by structural fields => fields

def valueWrites (e : Encoder) (dict : FieldMap) (pre key : String) : Json → List Write
  | .prim p => [([key],leafValue e (fullKey pre key) key p)]
  | .arr items => [([key],.arr ((decodeItems e dict (fullKey pre key++"[]") items).getD []))]
  | .obj fields => under key (localWrites e dict (fullKey pre key) fields)
termination_by structural value => value
end

mutual
def image (e : Encoder) (dict : FieldMap) (pre : String) : Members → Members
  | [] => []
  | (key,value)::rest => (key,valueImage e dict pre key value)::image e dict pre rest
termination_by structural fields => fields

def valueImage (e : Encoder) (dict : FieldMap) (pre key : String) : Json → Json
  | .prim p => leafValue e (fullKey pre key) key p
  | .arr items => .arr ((decodeItems e dict (fullKey pre key++"[]") items).getD [])
  | .obj fields => .obj (image e dict (fullKey pre key) fields)
termination_by structural value => value
end

def startsWithIndex : Members → Bool
  | [] => false
  | (key,_)::_ => allDigits key

mutual
def Landing : Members → Prop
  | [] => True
  | (key,value)::rest => LandingValue key value ∧ Landing rest
termination_by structural fields => fields

def LandingValue (key : String) : Json → Prop
  | .prim _ => key ≠ "__proto__"
  | .arr _ => key ≠ "__proto__"
  | .obj fields => key ∉ inheritedNames ∧ startsWithIndex fields = false ∧ Landing fields
termination_by structural value => value
end

section Walk
variable (e : Encoder) (dict : FieldMap)

mutual
theorem arrivals_upright (pre : String) : ∀ fields : Members, WellFormed fields →
    Upright (segments pre).length fields →
    arrivals e dict pre fields =
      (localWrites e dict pre fields).map (fun w => (segments pre++w.1,w.2))
  | [], _, _ => by simp [arrivals, localWrites]
  | (key,value)::rest, hw, hu => by
    rw [WellFormed] at hw
    rw [Upright] at hu
    rw [arrivals, localWrites, List.map_append,
      valueArrivals_upright pre value hw.2.1 hw.2.2.2.1 hu.1,
      arrivals_upright pre rest hw.2.2.2.2 hu.2]
termination_by structural fields => fields

theorem valueArrivals_upright (pre : String) {key : String} : ∀ value : Json, PlainKey key →
    WellValue value → UprightValue (segments pre).length key value →
    valueArrivals e dict pre key value =
      (valueWrites e dict pre key value).map (fun w => (segments pre++w.1,w.2))
  | .prim p, _, _, hu => by
    rw [UprightValue] at hu
    simp [valueArrivals, valueWrites, keyParts_of_ne hu]
  | .arr items, _, _, hu => by
    rw [UprightValue, List.length_eq_zero_iff] at hu
    simp [valueArrivals, valueWrites, hu]
  | .obj fields, hp, hw, hu => by
    rw [UprightValue] at hu
    rw [WellValue] at hw
    have hs := segments_fullKey pre hp
    rw [keyParts_of_ne hu.1] at hs
    have hl : (segments (fullKey pre key)).length = (segments pre).length+1 := by simp [hs]
    have hf := arrivals_upright (fullKey pre key) fields hw.2 (by rw [hl]; exact hu.2)
    rw [valueArrivals, valueWrites, hf, hs]
    simp [under]
termination_by structural value => value
end

theorem totalLength_under (n : ℕ) (key : String) (ws : List Write) :
    totalLength n (under key ws) = totalLength (n+1) ws := by
  induction ws with
  | nil => rfl
  | cons w ws ih =>
    unfold under at ih ⊢
    rw [List.map_cons, totalLength, totalLength, ih, List.length_cons]
    omega

mutual
theorem totalLength_localWrites (n : ℕ) (pre : String) : ∀ fields : Members,
    totalLength n (localWrites e dict pre fields) = weight n fields
  | [] => by simp [localWrites, totalLength, weight]
  | (key,value)::rest => by
    rw [localWrites, totalLength_append, totalLength_valueWrites n pre key value,
      totalLength_localWrites n pre rest, weight]
termination_by structural fields => fields

theorem totalLength_valueWrites (n : ℕ) (pre key : String) : ∀ value : Json,
    totalLength n (valueWrites e dict pre key value) = valueWeight n value
  | .prim p => by simp [valueWrites, totalLength, valueWeight]
  | .arr items => by simp [valueWrites, totalLength, valueWeight]
  | .obj fields => by
    rw [valueWrites, totalLength_under, totalLength_localWrites (n+1) (fullKey pre key) fields,
      valueWeight]
termination_by structural value => value
end

mutual
theorem localWrites_light (pre : String) :
    ∀ fields : Members, ∀ w ∈ localWrites e dict pre fields, Light w.2
  | [] => by simp [localWrites]
  | (key,value)::rest => by
    intro w hw
    rw [localWrites] at hw
    rcases List.mem_append.mp hw with hw | hw
    · exact valueWrites_light pre key value w hw
    · exact localWrites_light pre rest w hw
termination_by structural fields => fields

theorem valueWrites_light (pre key : String) :
    ∀ value : Json, ∀ w ∈ valueWrites e dict pre key value, Light w.2
  | .prim p => by
    intro w hw
    rw [valueWrites, List.mem_singleton] at hw
    rw [hw]
    exact leafValue_light e _ key p
  | .arr items => by
    intro w hw
    rw [valueWrites, List.mem_singleton] at hw
    rw [hw]
    exact light_arr _
  | .obj fields => by
    intro w hw
    rw [valueWrites] at hw
    obtain ⟨v,hv,rfl⟩ := List.mem_map.mp hw
    exact localWrites_light (fullKey pre key) fields v hv
termination_by structural value => value
end

theorem image_length (pre : String) (fields : Members) :
    (image e dict pre fields).length = fields.length := by
  induction fields with
  | nil => rfl
  | cons f fields ih =>
    obtain ⟨key,value⟩ := f
    rw [image, List.length_cons, List.length_cons, ih]

end Walk

theorem lookup_concat {acc : Members} {key : String} (value : Json) (h : acc.lookup key = none) :
    (acc++[(key,value)]).lookup key = some value := by
  rw [List.lookup_append, h]
  simp

theorem setMember_concat {acc : Members} {key : String} (old value : Json)
    (h : acc.lookup key = none) : setMember key value (acc++[(key,old)]) = acc++[(key,value)] := by
  induction acc with
  | nil => simp [setMember]
  | cons f acc ih =>
    obtain ⟨k,v⟩ := f
    by_cases hk : key = k
    · simp [hk, List.lookup_cons_self] at h
    · rw [lookup_cons_ne hk] at h
      rw [List.cons_append, setMember_cons_ne hk, ih h]
      rfl

theorem assignMember_concat {acc : Members} {key : String} (old value : Json)
    (hp : key ≠ "__proto__") (h : acc.lookup key = none) :
    assignMember (acc++[(key,old)]) key value = acc++[(key,value)] := by
  rw [assignMember, if_neg hp, setMember_concat old value h]

theorem assignMember_absent {acc : Members} {key : String} (value : Json)
    (hp : key ≠ "__proto__") (h : acc.lookup key = none) :
    assignMember acc key value = acc++[(key,value)] := by
  rw [assignMember, if_neg hp, setMember_absent value h]

theorem applyWrites_under_obj {acc : Members} {key : String} (hp : key ≠ "__proto__")
    (h : acc.lookup key = none) (inner : Members) {ws : List Write} (hne : ∀ w ∈ ws, w.1 ≠ []) :
    applyWrites (acc++[(key,.obj inner)]) (under key ws) =
      (applyWrites inner ws).map (fun o => acc++[(key,.obj o)]) := by
  induction ws generalizing inner with
  | nil => rfl
  | cons w ws ih =>
    obtain ⟨parts,value⟩ := w
    cases parts with
    | nil => exact absurd rfl (hne ([],value) List.mem_cons_self)
    | cons next rest =>
      have ht : ∀ w ∈ ws, w.1 ≠ [] := fun w hw => hne w (List.mem_cons_of_mem _ hw)
      have hs : setNestedValue (acc++[(key,.obj inner)]) value (key::next::rest) =
          (setNestedValue inner value (next::rest)).map (fun o => acc++[(key,.obj o)]) := by
        rw [setNestedValue, lookup_concat _ h]
        simp only [assignMember_concat _ _ hp h]
      show (setNestedValue _ value (key::next::rest)).bind _ = _
      rw [hs, applyWrites]
      cases hv : setNestedValue inner value (next::rest) with
      | none => rfl
      | some o => exact ih o ht

theorem applyWrites_under_arr {acc out : Members} {key : String} (hp : key ≠ "__proto__")
    (h : acc.lookup key = none) (items : List Json) {ws : List Write} (hne : ∀ w ∈ ws, w.1 ≠ [])
    (ha : applyWrites (acc++[(key,.arr items)]) (under key ws) = some out) :
    ∃ values, out = acc++[(key,.arr values)] := by
  induction ws generalizing items with
  | nil => exact ⟨items,(Option.some.inj ha).symm⟩
  | cons w ws ih =>
    obtain ⟨parts,value⟩ := w
    cases parts with
    | nil => exact absurd rfl (hne ([],value) List.mem_cons_self)
    | cons next rest =>
      have ht : ∀ w ∈ ws, w.1 ≠ [] := fun w hw => hne w (List.mem_cons_of_mem _ hw)
      have hs : setNestedValue (acc++[(key,.arr items)]) value (key::next::rest) =
          (setArrayValue items value (next::rest)).map (fun o => acc++[(key,.arr o)]) := by
        rw [setNestedValue, lookup_concat _ h]
        simp only [assignMember_concat _ _ hp h]
      change (setNestedValue _ value (key::next::rest)).bind _ = _ at ha
      rw [hs] at ha
      cases hv : setArrayValue items value (next::rest) with
      | none => simp [hv] at ha
      | some o =>
        rw [hv] at ha
        exact ih o ht ha

theorem applyWrites_under_inherited {acc : Members} {key : String} (hi : key ∈ inheritedNames)
    (h : acc.lookup key = none) {ws : List Write} (hne : ∀ w ∈ ws, w.1 ≠ []) :
    applyWrites acc (under key ws) = some acc := by
  induction ws with
  | nil => rfl
  | cons w ws ih =>
    obtain ⟨parts,value⟩ := w
    cases parts with
    | nil => exact absurd rfl (hne ([],value) List.mem_cons_self)
    | cons next rest =>
      have hs : setNestedValue acc value (key::next::rest) = some acc := by
        rw [setNestedValue, h]
        simp [hi]
      show (setNestedValue acc value (key::next::rest)).bind _ = _
      rw [hs]
      exact ih (fun w hw => hne w (List.mem_cons_of_mem _ hw))

theorem applyWrites_under_absent {acc : Members} {key next : String} {rest : List String}
    {value : Json} {ws : List Write} (hi : key ∉ inheritedNames) (h : acc.lookup key = none)
    (hd : allDigits next = false) (hne : ∀ w ∈ ws, w.1 ≠ []) :
    applyWrites acc (under key ((next::rest,value)::ws)) =
      (applyWrites [] ((next::rest,value)::ws)).map (fun o => acc++[(key,.obj o)]) := by
  have hp : key ≠ "__proto__" := fun he => hi (by rw [he]; decide)
  have hs : setNestedValue acc value (key::next::rest) =
      (setNestedValue [] value (next::rest)).map (fun o => acc++[(key,.obj o)]) := by
    rw [setNestedValue, h]
    simp only [if_neg hi, hd, assignMember_absent _ hp h, Bool.false_eq_true, if_false]
  show (setNestedValue acc value (key::next::rest)).bind (fun a => applyWrites a (under key ws)) = _
  rw [hs, applyWrites]
  cases hv : setNestedValue [] value (next::rest) with
  | none => rfl
  | some o => exact applyWrites_under_obj hp h o hne

theorem applyWrites_under_index {acc out : Members} {key next : String} {rest : List String}
    {value : Json} {ws : List Write} (hi : key ∉ inheritedNames) (h : acc.lookup key = none)
    (hd : allDigits next = true) (hne : ∀ w ∈ ws, w.1 ≠ [])
    (ha : applyWrites acc (under key ((next::rest,value)::ws)) = some out) :
    ∃ values, out = acc++[(key,.arr values)] := by
  have hp : key ≠ "__proto__" := fun he => hi (by rw [he]; decide)
  have hs : setNestedValue acc value (key::next::rest) =
      (setArrayValue [] value (next::rest)).map (fun o => acc++[(key,.arr o)]) := by
    rw [setNestedValue, h]
    simp only [if_neg hi, hd, assignMember_absent _ hp h, if_true]
  change (setNestedValue acc value (key::next::rest)).bind
    (fun a => applyWrites a (under key ws)) = _ at ha
  rw [hs] at ha
  cases hv : setArrayValue [] value (next::rest) with
  | none => simp [hv] at ha
  | some o =>
    rw [hv] at ha
    exact applyWrites_under_arr hp h o hne ha

/-- Writes that add more than one leaf's worth below a fresh key have found
or made an object there. -/
theorem under_lands {acc out : Members} {key next : String} {rest : List String} {value : Json}
    {ws : List Write} {n : ℕ} (h : acc.lookup key = none) (hne : ∀ w ∈ ws, w.1 ≠ [])
    (ha : applyWrites acc (under key ((next::rest,value)::ws)) = some out)
    (hw : weight n acc+(n+1) < weight n out) :
    key ∉ inheritedNames ∧ allDigits next = false := by
  have hi : key ∉ inheritedNames := by
    intro hi
    rw [applyWrites_under_inherited hi h (by simpa using hne), Option.some.injEq] at ha
    rw [ha] at hw
    omega
  refine ⟨hi,?_⟩
  by_contra hd
  rw [Bool.not_eq_false] at hd
  obtain ⟨values,rfl⟩ := applyWrites_under_index hi h hd hne ha
  rw [weight_append] at hw
  simp only [weight, valueWeight] at hw
  omega

section Walk
variable (e : Encoder) (dict : FieldMap)

theorem valueWrites_ne (pre key : String) (value : Json) :
    ∀ w ∈ valueWrites e dict pre key value, w.1 ≠ [] := by
  intro w hw
  cases value with
  | prim p =>
    rw [valueWrites, List.mem_singleton] at hw
    simp [hw]
  | arr items =>
    rw [valueWrites, List.mem_singleton] at hw
    simp [hw]
  | obj fields =>
    rw [valueWrites] at hw
    obtain ⟨v,_,rfl⟩ := List.mem_map.mp hw
    simp

theorem localWrites_ne (pre : String) (fields : Members) :
    ∀ w ∈ localWrites e dict pre fields, w.1 ≠ [] := by
  induction fields with
  | nil => simp [localWrites]
  | cons f fields ih =>
    obtain ⟨key,value⟩ := f
    intro w hw
    rw [localWrites] at hw
    rcases List.mem_append.mp hw with hw | hw
    · exact valueWrites_ne e dict pre key value w hw
    · exact ih w hw

mutual
theorem localWrites_head (pre : String) : ∀ fields : Members, WellFormed fields → fields ≠ [] →
    ∃ next rest value ws, localWrites e dict pre fields = (next::rest,value)::ws ∧
      allDigits next = startsWithIndex fields
  | [], _, hne => absurd rfl hne
  | (key,value)::rest, hw, _ => by
    rw [WellFormed] at hw
    obtain ⟨parts,v,ws,hv⟩ := valueWrites_head pre key value hw.2.2.2.1
    refine ⟨key,parts,v,ws++localWrites e dict pre rest,?_,rfl⟩
    rw [localWrites, hv]
    rfl
termination_by structural fields => fields

theorem valueWrites_head (pre key : String) : ∀ value : Json, WellValue value →
    ∃ rest v ws, valueWrites e dict pre key value = (key::rest,v)::ws
  | .prim p, _ => ⟨[],_,[],by rw [valueWrites]⟩
  | .arr items, _ => ⟨[],_,[],by rw [valueWrites]⟩
  | .obj fields, hw => by
    rw [WellValue] at hw
    obtain ⟨next,rest,v,ws,hl,_⟩ := localWrites_head (fullKey pre key) fields hw.2 hw.1
    refine ⟨next::rest,v,under key ws,?_⟩
    rw [valueWrites, hl]
    rfl
termination_by structural value => value
end

def Fresh (acc fields : Members) : Prop := ∀ key ∈ fields.map Prod.fst, acc.lookup key = none

theorem fresh_nil (fields : Members) : Fresh [] fields := fun _ _ => rfl

theorem Fresh.step {acc rest : Members} {key : String} {value : Json} (v : Json)
    (h : Fresh acc ((key,value)::rest)) (hk : key ∉ rest.map Prod.fst) :
    Fresh (acc++[(key,v)]) rest := by
  intro k hm
  have hne : k ≠ key := fun he => hk (he ▸ hm)
  rw [List.lookup_append, h k (by simp [hm]), lookup_cons_ne hne]
  rfl

mutual
theorem applyWrites_localWrites (pre : String) : ∀ fields : Members, WellFormed fields →
    Landing fields → ∀ acc, Fresh acc fields →
    applyWrites acc (localWrites e dict pre fields) = some (acc++image e dict pre fields)
  | [], _, _, acc, _ => by simp [localWrites, applyWrites, image]
  | (key,value)::rest, hw, hl, acc, hf => by
    rw [WellFormed] at hw
    rw [Landing] at hl
    have hv := applyWrites_valueWrites pre key value hw.2.2.2.1 hl.1 acc (hf key (by simp))
    have hr := applyWrites_localWrites pre rest hw.2.2.2.2 hl.2
      (acc++[(key,valueImage e dict pre key value)]) (hf.step _ hw.1)
    rw [localWrites, applyWrites_append, hv, Option.bind_some, hr, image, List.append_assoc]
    rfl
termination_by structural fields => fields

theorem applyWrites_valueWrites (pre key : String) : ∀ value : Json, WellValue value →
    LandingValue key value → ∀ acc : Members, acc.lookup key = none →
    applyWrites acc (valueWrites e dict pre key value) =
      some (acc++[(key,valueImage e dict pre key value)])
  | .prim p, _, hl, acc, hf => by
    rw [LandingValue] at hl
    simp [valueWrites, applyWrites, setNestedValue, assignMember_absent _ hl hf, valueImage]
  | .arr items, _, hl, acc, hf => by
    rw [LandingValue] at hl
    simp [valueWrites, applyWrites, setNestedValue, assignMember_absent _ hl hf, valueImage]
  | .obj fields, hw, hl, acc, hf => by
    rw [WellValue] at hw
    rw [LandingValue] at hl
    have hi := applyWrites_localWrites (fullKey pre key) fields hw.2 hl.2.2 [] (fresh_nil fields)
    have hne := localWrites_ne e dict (fullKey pre key) fields
    obtain ⟨next,rest,v,ws,hh,hd⟩ := localWrites_head e dict (fullKey pre key) fields hw.2 hw.1
    rw [hh] at hi hne
    rw [valueWrites, hh, applyWrites_under_absent hl.1 hf (hd.trans hl.2.1)
      (fun w hw => hne w (List.mem_cons_of_mem _ hw)), hi, valueImage]
    rfl
termination_by structural value => value
end

mutual
theorem landing_of_weight (pre : String) : ∀ fields : Members, WellFormed fields →
    ∀ (n : ℕ) (acc out : Members), Fresh acc fields →
    applyWrites acc (localWrites e dict pre fields) = some out →
    weight n acc+weight n fields ≤ weight n out → Landing fields
  | [], _, _, _, _, _, _, _ => by simp [Landing]
  | (key,value)::rest, hw, n, acc, out, hf, ha, h => by
    rw [WellFormed] at hw
    rw [localWrites, applyWrites_append, Option.bind_eq_some_iff] at ha
    obtain ⟨mid,hm,ha⟩ := ha
    have hvb := weight_applyWrites (n := n) (valueWrites_light e dict pre key value) hm
    have hrb := weight_applyWrites (n := n) (localWrites_light e dict pre rest) ha
    rw [totalLength_valueWrites] at hvb
    rw [totalLength_localWrites] at hrb
    rw [weight] at h
    have hlv : LandingValue key value :=
      landingValue_of_weight pre key value hw.2.2.2.1 n acc mid (hf key (by simp)) hm (by omega)
    have he := applyWrites_valueWrites e dict pre key value hw.2.2.2.1 hlv acc (hf key (by simp))
    rw [hm, Option.some.injEq] at he
    rw [Landing]
    refine ⟨hlv,?_⟩
    apply landing_of_weight pre rest hw.2.2.2.2 n mid out _ ha (by omega)
    rw [he]
    exact hf.step _ hw.1
termination_by structural fields => fields

theorem landingValue_of_weight (pre key : String) : ∀ value : Json, WellValue value →
    ∀ (n : ℕ) (acc out : Members), acc.lookup key = none →
    applyWrites acc (valueWrites e dict pre key value) = some out →
    weight n acc+valueWeight n value ≤ weight n out → LandingValue key value
  | .prim p, _, n, acc, out, hf, ha, h => by
    rw [LandingValue]
    intro hk
    simp [valueWrites, applyWrites, setNestedValue, assignMember, hk] at ha
    rw [ha, valueWeight] at h
    omega
  | .arr items, _, n, acc, out, hf, ha, h => by
    rw [LandingValue]
    intro hk
    simp [valueWrites, applyWrites, setNestedValue, assignMember, hk] at ha
    rw [ha, valueWeight] at h
    omega
  | .obj fields, hw, n, acc, out, hf, ha, h => by
    rw [WellValue] at hw
    have hlt := lt_weight (n+1) fields hw.2 hw.1
    obtain ⟨next,rest,v,ws,hh,hd⟩ := localWrites_head e dict (fullKey pre key) fields hw.2 hw.1
    have hne : ∀ w ∈ ws, w.1 ≠ [] := fun w hm =>
      localWrites_ne e dict (fullKey pre key) fields w (by rw [hh]; exact List.mem_cons_of_mem _ hm)
    rw [valueWrites, hh] at ha
    rw [valueWeight] at h
    obtain ⟨hi,hdig⟩ := under_lands (n := n) hf hne ha (by omega)
    rw [applyWrites_under_absent hi hf hdig hne, Option.map_eq_some_iff, ← hh] at ha
    obtain ⟨o,ho,rfl⟩ := ha
    rw [weight_append] at h
    simp only [weight, valueWeight] at h
    rw [LandingValue]
    refine ⟨hi,hd.symm.trans hdig,?_⟩
    apply landing_of_weight (fullKey pre key) fields hw.2 (n+1) [] o (fresh_nil fields) ho
    simp only [weight]
    omega
termination_by structural value => value
end

end Walk

end Iotistica.DictionaryCodec
