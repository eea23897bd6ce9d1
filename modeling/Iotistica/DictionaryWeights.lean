import Iotistica.DictionaryArrivals

/-!
# Weights of objects

The weight of an object adds up the depths of its leaves, an array counting
as one. A write adds at most the number of its segments, so an object that
came through has been written along paths of full length: no key on the way
to a leaf is empty, and no array sits inside a nested object.
-/

set_option autoImplicit false

namespace Iotistica.DictionaryCodec
open Iotistica Iotistica.AgentDictionary Iotistica.CloudDictionary

mutual
def weight (n : ℕ) : Members → ℕ
  | [] => 0
  | (_,value)::rest => valueWeight n value+weight n rest
termination_by structural fields => fields

def valueWeight (n : ℕ) : Json → ℕ
  | .prim _ => n+1
  | .arr _ => n+1
  | .obj fields => weight (n+1) fields
termination_by structural value => value
end

def totalLength (n : ℕ) : List Write → ℕ
  | [] => 0
  | w::ws => n+w.1.length+totalLength n ws

theorem totalLength_append (n : ℕ) (ws vs : List Write) :
    totalLength n (ws++vs) = totalLength n ws+totalLength n vs := by
  induction ws with
  | nil => simp [totalLength]
  | cons w ws ih => simp [totalLength, ih, Nat.add_assoc]

theorem weight_append (n : ℕ) (fs gs : Members) : weight n (fs++gs) = weight n fs+weight n gs := by
  induction fs with
  | nil => simp [weight]
  | cons f fs ih =>
    rw [List.cons_append, weight, weight, ih, Nat.add_assoc]

mutual
theorem weight_mono {n k : ℕ} (h : n ≤ k) : ∀ fields : Members, weight n fields ≤ weight k fields
  | [] => by simp [weight]
  | (_,value)::rest => by
    have hv := valueWeight_mono h value
    have hr := weight_mono h rest
    rw [weight, weight]
    omega
termination_by structural fields => fields

theorem valueWeight_mono {n k : ℕ} (h : n ≤ k) : ∀ value : Json, valueWeight n value ≤ valueWeight k value
  | .prim _ => by simpa [valueWeight] using h
  | .arr _ => by simpa [valueWeight] using h
  | .obj fields => by
    rw [valueWeight, valueWeight]
    exact weight_mono (Nat.succ_le_succ h) fields
termination_by structural value => value
end

mutual
theorem weight_lt {n k : ℕ} (h : n < k) :
    ∀ fields : Members, WellFormed fields → fields ≠ [] → weight n fields < weight k fields
  | [], _, hne => absurd rfl hne
  | (_,value)::rest, hw, _ => by
    rw [WellFormed] at hw
    have hv := valueWeight_lt h value hw.2.2.2.1
    have hr := weight_mono h.le rest
    rw [weight, weight]
    omega
termination_by structural fields => fields

theorem valueWeight_lt {n k : ℕ} (h : n < k) :
    ∀ value : Json, WellValue value → valueWeight n value < valueWeight k value
  | .prim _, _ => by simpa [valueWeight] using h
  | .arr _, _ => by simpa [valueWeight] using h
  | .obj fields, hw => by
    rw [WellValue] at hw
    rw [valueWeight, valueWeight]
    exact weight_lt (Nat.succ_lt_succ h) fields hw.2 hw.1
termination_by structural value => value
end

mutual
theorem lt_weight (n : ℕ) :
    ∀ fields : Members, WellFormed fields → fields ≠ [] → n < weight n fields
  | [], _, hne => absurd rfl hne
  | (_,value)::rest, hw, _ => by
    rw [WellFormed] at hw
    have hv := lt_valueWeight n value hw.2.2.2.1
    rw [weight]
    omega
termination_by structural fields => fields

theorem lt_valueWeight (n : ℕ) : ∀ value : Json, WellValue value → n < valueWeight n value
  | .prim _, _ => by simp [valueWeight]
  | .arr _, _ => by simp [valueWeight]
  | .obj fields, hw => by
    rw [WellValue] at hw
    have hf := lt_weight (n+1) fields hw.2 hw.1
    rw [valueWeight]
    omega
termination_by structural value => value
end

theorem lookup_cons_ne {key k : String} (h : key ≠ k) (v : Json) (fields : Members) :
    List.lookup key ((k,v)::fields) = fields.lookup key := by
  rw [List.lookup_cons, beq_false_of_ne h]

theorem setMember_cons_ne {key k : String} (h : key ≠ k) (value v : Json) (fields : Members) :
    setMember key value ((k,v)::fields) = (k,v)::setMember key value fields := by
  rw [setMember, if_neg (fun he => h he.symm)]

theorem setMember_absent {key : String} (value : Json) {fields : Members}
    (h : fields.lookup key = none) : setMember key value fields = fields++[(key,value)] := by
  induction fields with
  | nil => rfl
  | cons f fields ih =>
    obtain ⟨k,v⟩ := f
    by_cases hk : key = k
    · simp [hk, List.lookup_cons_self] at h
    · rw [lookup_cons_ne hk] at h
      rw [setMember_cons_ne hk, ih h]
      rfl

theorem weight_setMember {key : String} {old : Json} (value : Json) (n : ℕ) {fields : Members}
    (h : fields.lookup key = some old) :
    weight n (setMember key value fields)+valueWeight n old =
      weight n fields+valueWeight n value := by
  induction fields with
  | nil => simp at h
  | cons f fields ih =>
    obtain ⟨k,v⟩ := f
    by_cases hk : key = k
    · rw [hk, List.lookup_cons_self, Option.some.injEq] at h
      rw [setMember, if_pos hk.symm, weight, weight, h]
      omega
    · rw [lookup_cons_ne hk] at h
      have hr := ih h
      rw [setMember_cons_ne hk, weight, weight]
      omega

theorem weight_assignMember (fields : Members) (key : String) (value : Json) (n : ℕ) :
    weight n (assignMember fields key value) ≤ weight n fields ∨
      weight n (assignMember fields key value)+((fields.lookup key).elim 0 (valueWeight n)) =
        weight n fields+valueWeight n value := by
  unfold assignMember
  by_cases hp : key = "__proto__"
  · rw [if_pos hp]
    exact Or.inl (Nat.le_refl _)
  rw [if_neg hp]
  right
  cases hl : fields.lookup key with
  | none =>
    rw [setMember_absent value hl, weight_append]
    simp [weight]
  | some old => exact weight_setMember value n hl

def Light (value : Json) : Prop := ∀ n, valueWeight n value ≤ n+1

theorem weight_assign_arr (fields : Members) (part : String) (items : List Json) (n : ℕ) :
    weight n (assignMember fields part (.arr items)) ≤ weight n fields+(n+1) := by
  have ha := weight_assignMember fields part (.arr items) n
  rw [valueWeight] at ha
  omega

/-- An object may be put in the place of one that weighed no less to begin
with. -/
theorem weight_assign_obj {fields inner o : Members} {part : String} {n k : ℕ}
    (ho : weight (n+1) o ≤ weight (n+1) inner+(n+1+k))
    (hi : weight (n+1) inner ≤ (fields.lookup part).elim 0 (valueWeight n)) :
    weight n (assignMember fields part (.obj o)) ≤ weight n fields+(n+1+k) := by
  have ha := weight_assignMember fields part (.obj o) n
  rw [valueWeight] at ha
  omega

theorem weight_setNestedValue {value : Json} (hv : Light value) :
    ∀ (parts : List String) (n : ℕ) (fields out : Members),
      setNestedValue fields value parts = some out →
      weight n out ≤ weight n fields+(n+parts.length)
  | [], n, fields, out, h => by
    simp only [setNestedValue, Option.some.injEq] at h
    rw [h]
    omega
  | [part], n, fields, out, h => by
    simp only [setNestedValue, Option.some.injEq] at h
    have ha := weight_assignMember fields part value n
    have := hv n
    rw [h] at ha
    simp only [List.length_singleton]
    omega
  | part::next::rest, n, fields, out, h => by
    have ih := weight_setNestedValue hv (next::rest) (n+1)
    have harr : ∀ items, weight n (assignMember fields part (.arr items)) ≤
        weight n fields+(n+(part::next::rest).length) := by
      intro items
      have ha := weight_assign_arr fields part items n
      simp only [List.length_cons]
      omega
    have hobj : ∀ inner o, setNestedValue inner value (next::rest) = some o →
        weight (n+1) inner ≤ (fields.lookup part).elim 0 (valueWeight n) →
        weight n (assignMember fields part (.obj o)) ≤
          weight n fields+(n+(part::next::rest).length) := by
      intro inner o ho hi
      have ha := weight_assign_obj (ih inner o ho) hi
      simp only [List.length_cons] at ha ⊢
      omega
    rw [setNestedValue] at h
    cases hl : fields.lookup part with
    | none =>
      rw [hl] at h hobj
      simp only at h
      split at h
      · simp only [Option.some.injEq] at h
        rw [← h]
        omega
      · split at h
        · obtain ⟨o,_,rfl⟩ := Option.map_eq_some_iff.mp h
          exact harr o
        · obtain ⟨o,ho,rfl⟩ := Option.map_eq_some_iff.mp h
          exact hobj [] o ho (by simp [weight])
    | some old =>
      rw [hl] at h hobj
      cases old with
      | obj inner =>
        obtain ⟨o,ho,rfl⟩ := Option.map_eq_some_iff.mp h
        exact hobj inner o ho (by simp [valueWeight])
      | arr items =>
        obtain ⟨o,_,rfl⟩ := Option.map_eq_some_iff.mp h
        exact harr o
      | prim p =>
        simp only at h
        split at h
        · simp at h
        · split at h
          · obtain ⟨o,_,rfl⟩ := Option.map_eq_some_iff.mp h
            exact harr o
          · obtain ⟨o,ho,rfl⟩ := Option.map_eq_some_iff.mp h
            exact hobj [] o ho (by simp [weight])

theorem weight_applyWrites {n : ℕ} {acc out : Members} {ws : List Write}
    (hl : ∀ w ∈ ws, Light w.2) (h : applyWrites acc ws = some out) :
    weight n out ≤ weight n acc+totalLength n ws := by
  induction ws generalizing acc with
  | nil =>
    simp only [applyWrites, Option.some.injEq] at h
    rw [h]
    omega
  | cons w ws ih =>
    rw [applyWrites, Option.bind_eq_some_iff] at h
    obtain ⟨mid,hm,h⟩ := h
    have h1 := weight_setNestedValue (hl w List.mem_cons_self) w.1 n acc mid hm
    have h2 := ih (fun v hv => hl v (List.mem_cons_of_mem _ hv)) h
    rw [totalLength]
    omega

theorem light_prim (p : Prim) : Light (.prim p) := fun n => by simp [valueWeight]

theorem light_arr (items : List Json) : Light (.arr items) := fun n => by simp [valueWeight]

theorem light_empty : Light (.obj []) := fun n => by simp [valueWeight, weight]

def IsCode (code : Json) : Prop :=
  (∃ q, code = .prim (.num q)) ∨ code = .prim .null ∨ code = .obj []

theorem IsCode.light {code : Json} (h : IsCode code) : Light code := by
  rcases h with ⟨q,rfl⟩ | rfl | rfl
  · exact light_prim _
  · exact light_prim _
  · exact light_empty

theorem tableGet_isCode {t : EnumTable} {value : String} {code : Json}
    (h : tableGet t value = some code) : IsCode code := by
  unfold tableGet at h
  split at h
  · exact Or.inl ⟨_,(Option.some.inj h).symm⟩
  · split at h
    · exact Or.inr (Or.inr (Option.some.inj h).symm)
    · split at h
      · exact Or.inr (Or.inl (Option.some.inj h).symm)
      · simp at h

theorem enumCode_isCode {tables : EnumTables} {path value : String} {code : Json}
    (h : enumCode tables path value = some code) : IsCode code := by
  unfold enumCode at h
  split at h
  · simp at h
  · split at h
    · exact tableGet_isCode h
    · obtain ⟨t,_,ht⟩ := Option.bind_eq_some_iff.mp h
      exact tableGet_isCode ht
    · simp at h

theorem leafCode_isCode {e : Encoder} {path key : String} {p : Prim} {code : Json}
    (h : leafCode e path key p = some code) : IsCode code := by
  unfold leafCode at h
  split at h
  · split at h
    · obtain ⟨t,_,ht⟩ := Option.bind_eq_some_iff.mp h
      exact tableGet_isCode ht
    · exact enumCode_isCode h
  · simp at h

theorem decodeEnumValue_light {tables : EnumTables} {name : String} {value : Json}
    (h : Light value) : Light (decodeEnumValue tables name value) := by
  unfold decodeEnumValue
  split
  · split
    · exact light_prim _
    · exact h
  · exact h

theorem leafValue_light (e : Encoder) (path key : String) (p : Prim) :
    Light (leafValue e path key p) := by
  apply decodeEnumValue_light
  cases hc : leafCode e path key p with
  | none => exact light_prim p
  | some code => exact (leafCode_isCode hc).light

mutual
theorem arrivals_light {e : Encoder} {dict : FieldMap} {pre : String} :
    ∀ fields : Members, ∀ w ∈ arrivals e dict pre fields, Light w.2
  | [] => by simp [arrivals]
  | (key,value)::rest => by
    intro w hw
    rw [arrivals] at hw
    rcases List.mem_append.mp hw with hw | hw
    · exact valueArrivals_light value w hw
    · exact arrivals_light rest w hw
termination_by structural fields => fields

theorem valueArrivals_light {e : Encoder} {dict : FieldMap} {pre key : String} :
    ∀ value : Json, ∀ w ∈ valueArrivals e dict pre key value, Light w.2
  | .prim p => by
    intro w hw
    rw [valueArrivals, List.mem_singleton] at hw
    rw [hw]
    exact leafValue_light e _ key p
  | .arr items => by
    intro w hw
    rw [valueArrivals, List.mem_singleton] at hw
    rw [hw]
    exact light_arr _
  | .obj fields => by
    intro w hw
    rw [valueArrivals] at hw
    exact arrivals_light fields w hw
termination_by structural value => value
end

mutual
/-- No empty key leads to a leaf, and arrays sit directly in the root or in
an element; `depth` counts the keys since there. -/
def Upright (depth : ℕ) : Members → Prop
  | [] => True
  | (key,value)::rest => UprightValue depth key value ∧ Upright depth rest
termination_by structural fields => fields

def UprightValue (depth : ℕ) (key : String) : Json → Prop
  | .prim _ => key ≠ ""
  | .arr _ => depth = 0
  | .obj fields => key ≠ "" ∧ Upright (depth+1) fields
termination_by structural value => value
end

theorem keyParts_length_le (key : String) : (keyParts key).length ≤ 1 := by
  unfold keyParts
  split <;> simp

theorem keyParts_of_ne {key : String} (h : key ≠ "") : keyParts key = [key] := by
  unfold keyParts
  rw [if_neg h]

theorem segments_fullKey_length (pre : String) {key : String} (h : PlainKey key) :
    (segments (fullKey pre key)).length = (segments pre).length+(keyParts key).length := by
  rw [segments_fullKey pre h, List.length_append]

section Upright
variable (e : Encoder) (dict : FieldMap)

mutual
theorem totalLength_arrivals_le (pre : String) : ∀ fields : Members, WellFormed fields →
    totalLength 0 (arrivals e dict pre fields) ≤ weight (segments pre).length fields
  | [], _ => by simp [arrivals, totalLength]
  | (key,value)::rest, hw => by
    rw [WellFormed] at hw
    have hv := totalLength_valueArrivals_le pre value hw.2.1 hw.2.2.2.1
    have hr := totalLength_arrivals_le pre rest hw.2.2.2.2
    rw [arrivals, totalLength_append, weight]
    omega
termination_by structural fields => fields

theorem totalLength_valueArrivals_le (pre : String) {key : String} :
    ∀ value : Json, PlainKey key → WellValue value →
      totalLength 0 (valueArrivals e dict pre key value) ≤ valueWeight (segments pre).length value
  | .prim p, _, _ => by
    have hk := keyParts_length_le key
    simp only [valueArrivals, totalLength, valueWeight, List.length_append]
    omega
  | .arr items, _, _ => by simp [valueArrivals, totalLength, valueWeight]
  | .obj fields, hp, hw => by
    rw [WellValue] at hw
    have hf := totalLength_arrivals_le (fullKey pre key) fields hw.2
    have hk := keyParts_length_le key
    have hm := weight_mono (n := (segments (fullKey pre key)).length)
      (k := (segments pre).length+1) (by rw [segments_fullKey_length pre hp]; omega) fields
    rw [valueArrivals, valueWeight]
    omega
termination_by structural value => value
end

mutual
theorem upright_of_weight (pre : String) : ∀ fields : Members, WellFormed fields →
    weight (segments pre).length fields ≤ totalLength 0 (arrivals e dict pre fields) →
    Upright (segments pre).length fields
  | [], _, _ => by simp [Upright]
  | (key,value)::rest, hw, h => by
    rw [WellFormed] at hw
    have hv := totalLength_valueArrivals_le e dict pre value hw.2.1 hw.2.2.2.1
    have hr := totalLength_arrivals_le e dict pre rest hw.2.2.2.2
    rw [arrivals, totalLength_append, weight] at h
    rw [Upright]
    exact ⟨uprightValue_of_weight pre value hw.2.1 hw.2.2.2.1 (by omega),
      upright_of_weight pre rest hw.2.2.2.2 (by omega)⟩
termination_by structural fields => fields

theorem uprightValue_of_weight (pre : String) {key : String} :
    ∀ value : Json, PlainKey key → WellValue value →
      valueWeight (segments pre).length value ≤
        totalLength 0 (valueArrivals e dict pre key value) →
      UprightValue (segments pre).length key value
  | .prim p, _, _, h => by
    rw [UprightValue]
    intro hk
    simp only [valueArrivals, totalLength, valueWeight, keyParts, hk, if_true, List.append_nil] at h
    omega
  | .arr items, _, _, h => by
    rw [UprightValue]
    simp only [valueArrivals, totalLength, valueWeight, List.length_singleton] at h
    omega
  | .obj fields, hp, hw, h => by
    rw [WellValue] at hw
    rw [valueArrivals, valueWeight] at h
    have hs := segments_fullKey_length pre hp
    have hf := totalLength_arrivals_le e dict (fullKey pre key) fields hw.2
    have hk : key ≠ "" := by
      intro hk
      have hl := weight_lt (n := (segments (fullKey pre key)).length)
        (k := (segments pre).length+1) (by rw [hs]; simp [keyParts, hk]) fields hw.2 hw.1
      omega
    rw [keyParts_of_ne hk, List.length_singleton] at hs
    rw [UprightValue]
    refine ⟨hk,?_⟩
    rw [← hs] at h ⊢
    exact upright_of_weight (fullKey pre key) fields hw.2 h
termination_by structural value => value
end

end Upright

end Iotistica.DictionaryCodec
