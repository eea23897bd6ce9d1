import Mathlib.Data.List.Basic
import Mathlib.Data.List.Nodup
import Mathlib.Data.List.Perm.Subperm

/-!
# Deep equality of plain values

`deepEqual` compares the numbers of keys of two objects and then looks up
the keys of the first one in the second. A key that the second one lacks
reads as `undefined`, or as what every object inherits under that name.
-/

set_option autoImplicit false

namespace Iotistica.DeepEqual

inductive Container where
  | array
  | object
deriving DecidableEq

/-- Values in memory. Numbers are those of `N`, up to `===`, and NaN. An
array or an object has an address and its own enumerable keys; what `vals`
says of other names means nothing. -/
inductive Value (N : Type) where
  | undefined
  | null
  | nan
  | bool (b : Bool)
  | num (n : N)
  | str (s : String)
  | method (name : String)
  | node (addr : ℕ) (kind : Container) (keys : List String) (nodup : keys.Nodup)
      (vals : String → Value N)

inductive TypeOf where
  | undefined | object | boolean | number | string | function
deriving DecidableEq

section
variable {N : Type}

namespace Value

def typeof : Value N → TypeOf
  | .undefined => .undefined
  | .null => .object
  | .nan => .number
  | .bool _ => .boolean
  | .num _ => .number
  | .str _ => .string
  | .method _ => .function
  | .node .. => .object

/-- `v == null`. -/
def nullish : Value N → Bool
  | .undefined => true
  | .null => true
  | _ => false

/-- `Object.keys`. -/
def keys : Value N → List String
  | .node _ _ keys _ _ => keys
  | _ => []

/-- `Array.isArray`. -/
def isArray : Value N → Bool
  | .node _ .array _ _ _ => true
  | _ => false

end Value

def methodNames : List String :=
  ["constructor","hasOwnProperty","isPrototypeOf","propertyIsEnumerable","toLocaleString",
    "toString","valueOf","__defineGetter__","__defineSetter__","__lookupGetter__",
    "__lookupSetter__"]

/-- `Object.prototype`, an object without enumerable keys, at address 0. -/
def prototype : Value N := .node 0 .object [] List.nodup_nil (fun _ => .undefined)

def inherited (key : String) : Value N :=
  if key = "__proto__" then prototype
  else if key ∈ methodNames then .method key
  else .undefined

/-- `v[key]`. -/
def Value.get (v : Value N) (key : String) : Value N :=
  match v with
  | .node _ _ keys _ vals => if key ∈ keys then vals key else inherited key
  | _ => .undefined

def Value.shape : Value N → Option (Container × ℕ)
  | .node _ kind keys _ _ => some (kind,keys.length)
  | _ => none

def Similar (a b : Value N) : Prop := a.shape.isSome ∧ a.shape = b.shape

/-- What passes under a key that the other object lacks: `undefined`, and
an empty object under `__proto__`. -/
def blank (key : String) (v : Value N) : Prop :=
  if key = "__proto__" then v.shape = some (.object,0)
  else key ∉ methodNames ∧ v = .undefined

/-- The value lies in the memory `mem`: no functions, arrays without holes
or named members, nothing at the address of `Object.prototype`. -/
def Stored (mem : ℕ → Value N) : Value N → Prop
  | .method _ => False
  | .node addr kind keys nodup vals =>
    mem addr = .node addr kind keys nodup vals ∧ addr ≠ 0 ∧
      (kind = .array → keys = (List.range keys.length).map toString) ∧
      ∀ k ∈ keys, Stored mem (vals k)
  | _ => True

structure Plain (mem : ℕ → Value N) where
  value : Value N
  stored : Stored mem value

theorem node_get {addr : ℕ} {kind : Container} {keys : List String} {nodup : keys.Nodup}
    {vals : String → Value N} {k : String} (hk : k ∈ keys) :
    (Value.node addr kind keys nodup vals).get k = vals k := if_pos hk

theorem get_missing {a : Value N} {k : String} (ha : a.shape.isSome) (hk : k ∉ a.keys) :
    a.get k = inherited k := by
  cases a with
  | node addr kind keys nodup vals => exact if_neg hk
  | _ => cases ha

theorem keys_nodup (a : Value N) : a.keys.Nodup := by
  cases a with
  | node addr kind keys nodup vals => exact nodup
  | _ => exact List.nodup_nil

theorem keys_induction {P : Value N → Prop}
    (h : ∀ a, (∀ k ∈ a.keys, P (a.get k)) → P a) (a : Value N) : P a := by
  induction a with
  | node addr kind keys nodup vals ih =>
    refine h _ (fun k hk => ?_)
    have hget : (Value.node addr kind keys nodup vals).get k = vals k := node_get hk
    rw [hget]
    exact ih k
  | _ => exact h _ (fun k hk => nomatch hk)

theorem Similar.symm {a b : Value N} (h : Similar a b) : Similar b a :=
  ⟨h.2 ▸ h.1,h.2.symm⟩

theorem Similar.trans {a b c : Value N} (h : Similar a b) (h' : Similar b c) : Similar a c :=
  ⟨h.1,h.2.trans h'.2⟩

theorem keys_of_shape {v : Value N} {kind : Container} (h : v.shape = some (kind,0)) :
    v.keys = [] := by
  cases v with
  | node addr kind' keys nodup vals =>
    have : keys.length = 0 := (Prod.mk.inj (Option.some.inj h)).2
    exact List.length_eq_zero_iff.mp this
  | _ => rfl

theorem Similar.length {a b : Value N} (h : Similar a b) : a.keys.length = b.keys.length := by
  obtain ⟨hs,he⟩ := h
  cases a <;> cases b <;> simp_all [Value.shape, Value.keys]

theorem stored_get {mem : ℕ → Value N} {a : Value N} (h : Stored mem a) {k : String}
    (hk : k ∈ a.keys) : Stored mem (a.get k) := by
  cases a with
  | node addr kind keys nodup vals =>
    have hget : (Value.node addr kind keys nodup vals).get k = vals k := node_get hk
    rw [hget]
    exact h.2.2.2 k hk
  | _ => cases hk

/-- At some place the value in the middle lacks a key of the two others,
and the last one holds more than nothing under it. -/
def Skip (a b c : Value N) : Prop :=
  match a with
  | .node _ _ keys _ vals =>
    ∃ k ∈ keys, k ∈ c.keys ∧
      ((k ∉ b.keys ∧ ¬ blank k (c.get k)) ∨ (k ∈ b.keys ∧ Skip (vals k) (b.get k) (c.get k)))
  | _ => False

theorem skip_iff (a b c : Value N) : Skip a b c ↔
    ∃ k ∈ a.keys, k ∈ c.keys ∧ ((k ∉ b.keys ∧ ¬ blank k (c.get k)) ∨
      (k ∈ b.keys ∧ Skip (a.get k) (b.get k) (c.get k))) := by
  cases a with
  | node addr kind keys nodup vals =>
    refine exists_congr fun k => and_congr_right fun hk => ?_
    rw [node_get hk]
  | _ => simp [Skip, Value.keys]

theorem same_keys {a b : Value N} (h : Similar a b) (hsub : ∀ k ∈ a.keys, k ∈ b.keys) (k : String) :
    k ∈ a.keys ↔ k ∈ b.keys := by
  have hperm : a.keys.Perm b.keys :=
    (List.subperm_of_subset (keys_nodup a) hsub).perm_of_length_le (Nat.le_of_eq h.length.symm)
  exact hperm.mem_iff

theorem skip_same (a c : Value N) : ¬ Skip a a c := by
  induction a using keys_induction generalizing c with
  | h a ih =>
    rw [skip_iff]
    rintro ⟨k,hk,-,⟨hka,-⟩ | ⟨-,hskip⟩⟩
    · exact hka hk
    · exact ih k hk _ hskip

theorem skip_last (a b : Value N) : ¬ Skip a b b := by
  induction a using keys_induction generalizing b with
  | h a ih =>
    rw [skip_iff]
    rintro ⟨k,hk,hkb,⟨hno,-⟩ | ⟨-,hskip⟩⟩
    · exact hno hkb
    · exact ih k hk _ hskip

variable [DecidableEq N]

/-- `===`. Containers are compared by address. -/
def strictEquals : Value N → Value N → Bool
  | .undefined,.undefined => true
  | .null,.null => true
  | .bool a,.bool b => a = b
  | .num a,.num b => a = b
  | .str a,.str b => a = b
  | .method a,.method b => a = b
  | .node a .., .node b .. => a = b
  | _,_ => false

def deepEqual (a b : Value N) : Bool :=
  if strictEquals a b then true
  else if a.nullish || b.nullish then strictEquals a b
  else if a.typeof ≠ b.typeof then false
  else if a.typeof ≠ .object then false
  else if a.isArray ≠ b.isArray then false
  else if a.keys.length ≠ b.keys.length then false
  else
    match a with
    | .node _ _ aKeys _ vals => aKeys.all (fun k => deepEqual (vals k) (b.get k))
    | _ => true

/-- At every place that both have, the values are the same ones, or
containers of one kind with equally many keys. -/
def Alike (a b : Value N) : Prop :=
  match a with
  | .node addr kind keys nodup vals =>
    strictEquals (.node addr kind keys nodup vals) b = true ∨
      (Similar (.node addr kind keys nodup vals) b ∧
        ∀ k ∈ keys, k ∈ b.keys → Alike (vals k) (b.get k))
  | a => strictEquals a b = true

/-- At some place the first value holds more than nothing under a key that
the second one lacks. -/
def Lack (a b : Value N) : Prop :=
  match a with
  | .node addr kind keys nodup vals =>
    strictEquals (.node addr kind keys nodup vals) b = false ∧
      ∃ k ∈ keys, (k ∉ b.keys ∧ ¬ blank k (vals k)) ∨ (k ∈ b.keys ∧ Lack (vals k) (b.get k))
  | _ => False

/-- At some place the first value has a key that the second one lacks. -/
def Odd (a b : Value N) : Prop :=
  match a with
  | .node addr kind keys nodup vals =>
    strictEquals (.node addr kind keys nodup vals) b = false ∧
      ∃ k ∈ keys, k ∉ b.keys ∨ (k ∈ b.keys ∧ Odd (vals k) (b.get k))
  | _ => False

/-- Structural equality up to the order of keys, with `===` for primitives. -/
def StructEq (a b : Value N) : Prop :=
  match a with
  | .node addr kind keys nodup vals =>
    strictEquals (.node addr kind keys nodup vals) b = true ∨
      (Similar (.node addr kind keys nodup vals) b ∧ (∀ k, k ∈ keys ↔ k ∈ b.keys) ∧
        ∀ k ∈ keys, StructEq (vals k) (b.get k))
  | a => strictEquals a b = true

theorem strictEquals_comm (a b : Value N) : strictEquals a b = strictEquals b a := by
  cases a <;> cases b <;> simp [strictEquals, eq_comm]

theorem strictEquals_self {a : Value N} (h : a ≠ .nan) : strictEquals a a = true := by
  cases a <;> simp_all [strictEquals]

/-- In one memory two values that are `===` are one value. -/
theorem eq_of_strictEquals {mem : ℕ → Value N} {a b : Value N} (ha : Stored mem a)
    (hb : Stored mem b) (h : strictEquals a b = true) : a = b := by
  cases a with
  | node addr kind keys nodup vals =>
    cases b with
    | node addr' kind' keys' nodup' vals' =>
      have haddr : addr = addr' := by simpa [strictEquals] using h
      rw [← ha.1, haddr, hb.1]
    | _ => cases h
  | _ => cases b <;> simp_all [strictEquals]

theorem deepEqual_iff (a b : Value N) : deepEqual a b = true ↔
    strictEquals a b = true ∨
      (Similar a b ∧ ∀ k ∈ a.keys, deepEqual (a.get k) (b.get k) = true) := by
  cases a with
  | node addr kind keys nodup vals =>
    have hall : (∀ k ∈ keys, deepEqual ((Value.node addr kind keys nodup vals).get k) (b.get k) = true) ↔
        (keys.all fun k => deepEqual (vals k) (b.get k)) = true := by
      rw [List.all_eq_true]
      exact forall₂_congr fun k hk => by rw [node_get hk]
    rw [deepEqual]
    by_cases hs : strictEquals (.node addr kind keys nodup vals) b = true
    · simp [hs]
    · cases b with
      | node addr' kind' keys' nodup' vals' =>
        have hkind : (Value.node addr kind keys nodup vals).isArray =
            (Value.node addr' kind' keys' nodup' vals').isArray ↔ kind = kind' := by
          cases kind <;> cases kind' <;> simp [Value.isArray]
        simp only [hs, Value.nullish, Value.typeof, Value.keys, Similar, Value.shape, ne_eq, hkind,
          hall]
        by_cases hk : kind = kind' <;> by_cases hl : keys.length = keys'.length <;> simp [hk, hl]
      | _ => simp [hs, Value.nullish, Value.typeof, Similar, Value.shape]
  | _ => cases b <;> simp [deepEqual, strictEquals, Similar, Value.shape, Value.nullish, Value.typeof]

theorem alike_iff (a b : Value N) : Alike a b ↔
    strictEquals a b = true ∨
      (Similar a b ∧ ∀ k ∈ a.keys, k ∈ b.keys → Alike (a.get k) (b.get k)) := by
  cases a with
  | node addr kind keys nodup vals =>
    refine or_congr Iff.rfl (and_congr Iff.rfl (forall₂_congr fun k hk => ?_))
    rw [node_get hk]
  | _ => simp [Alike, Similar, Value.shape]

theorem lack_iff (a b : Value N) : Lack a b ↔
    strictEquals a b = false ∧ ∃ k ∈ a.keys, (k ∉ b.keys ∧ ¬ blank k (a.get k)) ∨
      (k ∈ b.keys ∧ Lack (a.get k) (b.get k)) := by
  cases a with
  | node addr kind keys nodup vals =>
    refine and_congr Iff.rfl (exists_congr fun k => and_congr_right fun hk => ?_)
    rw [node_get hk]
  | _ => simp [Lack, Value.keys]

theorem odd_iff (a b : Value N) : Odd a b ↔
    strictEquals a b = false ∧ ∃ k ∈ a.keys, k ∉ b.keys ∨
      (k ∈ b.keys ∧ Odd (a.get k) (b.get k)) := by
  cases a with
  | node addr kind keys nodup vals =>
    refine and_congr Iff.rfl (exists_congr fun k => and_congr_right fun hk => ?_)
    rw [node_get hk]
  | _ => simp [Odd, Value.keys]

theorem structEq_iff (a b : Value N) : StructEq a b ↔
    strictEquals a b = true ∨ (Similar a b ∧ (∀ k, k ∈ a.keys ↔ k ∈ b.keys) ∧
      ∀ k ∈ a.keys, StructEq (a.get k) (b.get k)) := by
  cases a with
  | node addr kind keys nodup vals =>
    refine or_congr Iff.rfl (and_congr Iff.rfl (and_congr Iff.rfl (forall₂_congr fun k hk => ?_)))
    rw [node_get hk]
  | _ => simp [StructEq, Similar, Value.shape]

theorem deepEqual_inherited {mem : ℕ → Value N} {v : Value N} (hv : Stored mem v) (k : String) :
    deepEqual v (inherited k) = true ↔ blank k v := by
  rw [deepEqual_iff]
  unfold inherited blank
  by_cases hproto : k = "__proto__"
  · simp only [if_pos hproto]
    cases v with
    | node addr kind keys nodup vals =>
      have haddr : addr ≠ 0 := hv.2.1
      constructor
      · rintro (h | ⟨h,-⟩)
        · exact absurd (by simpa [strictEquals, prototype] using h) haddr
        · exact h.2
      · intro h
        have hnone : keys = [] := by simpa [Value.shape] using (congrArg (Option.map Prod.snd) h)
        refine .inr ⟨⟨rfl,h⟩,fun k hk => ?_⟩
        simp [Value.keys, hnone] at hk
    | _ => simp [strictEquals, prototype, Similar, Value.shape]
  · simp only [if_neg hproto]
    by_cases hm : k ∈ methodNames
    · cases v <;> simp_all [strictEquals, Similar, Value.shape, Stored]
    · cases v <;> simp_all [strictEquals, Similar, Value.shape]

/-- The first value equals the second one exactly when the two are alike
and the first one lacks nothing. -/
theorem deepEqual_places {mem : ℕ → Value N} {a : Value N} (ha : Stored mem a) (b : Value N) :
    deepEqual a b = true ↔ Alike a b ∧ ¬ Lack a b := by
  induction a using keys_induction generalizing b with
  | h a ih =>
    rw [deepEqual_iff, alike_iff, lack_iff]
    cases hs : strictEquals a b with
    | true => simp
    | false =>
      have hkey : ∀ k ∈ a.keys, Similar a b → (deepEqual (a.get k) (b.get k) = true ↔
          (k ∈ b.keys → Alike (a.get k) (b.get k)) ∧
          ¬((k ∉ b.keys ∧ ¬ blank k (a.get k)) ∨ (k ∈ b.keys ∧ Lack (a.get k) (b.get k)))) := by
        intro k hk hsim
        have hv := stored_get ha hk
        by_cases hkb : k ∈ b.keys
        · rw [ih k hk hv]
          simp [hkb]
        · rw [get_missing hsim.symm.1 hkb, deepEqual_inherited hv]
          simp [hkb]
      constructor
      · rintro (h | ⟨hsim,hall⟩)
        · cases h
        · refine ⟨.inr ⟨hsim,fun k hk => ((hkey k hk hsim).mp (hall k hk)).1⟩,?_⟩
          rintro ⟨-,k,hk,hbad⟩
          exact ((hkey k hk hsim).mp (hall k hk)).2 hbad
      · rintro ⟨h | ⟨hsim,hall⟩,hno⟩
        · cases h
        · refine .inr ⟨hsim,fun k hk => (hkey k hk hsim).mpr ⟨hall k hk,fun hbad => ?_⟩⟩
          exact hno ⟨rfl,k,hk,hbad⟩

theorem alike_symm {a b : Value N} (h : Alike a b) : Alike b a := by
  induction a using keys_induction generalizing b with
  | h a ih =>
    rw [alike_iff] at h ⊢
    rcases h with h | ⟨hsim,hall⟩
    · exact .inl (strictEquals_comm a b ▸ h)
    · exact .inr ⟨hsim.symm,fun k hkb hka => ih k hka (hall k hka hkb)⟩

theorem structEq_places (a b : Value N) : StructEq a b ↔ Alike a b ∧ ¬ Odd a b := by
  induction a using keys_induction generalizing b with
  | h a ih =>
    rw [structEq_iff, alike_iff, odd_iff]
    cases hs : strictEquals a b with
    | true => simp
    | false =>
      constructor
      · rintro (h | ⟨hsim,hkeys,hall⟩)
        · cases h
        · refine ⟨.inr ⟨hsim,fun k hk _ => ((ih k hk _).mp (hall k hk)).1⟩,?_⟩
          rintro ⟨-,k,hk,hkb | ⟨-,hodd⟩⟩
          · exact hkb ((hkeys k).mp hk)
          · exact ((ih k hk _).mp (hall k hk)).2 hodd
      · rintro ⟨h | ⟨hsim,hall⟩,hno⟩
        · cases h
        · have hsub : ∀ k ∈ a.keys, k ∈ b.keys := by
            intro k hk
            by_contra hkb
            exact hno ⟨rfl,k,hk,.inl hkb⟩
          refine .inr ⟨hsim,same_keys hsim hsub,fun k hk => (ih k hk _).mpr ?_⟩
          exact ⟨hall k hk (hsub k hk),fun hodd => hno ⟨rfl,k,hk,.inr ⟨hsub k hk,hodd⟩⟩⟩

theorem odd_of_lack {a b : Value N} (h : Lack a b) : Odd a b := by
  induction a using keys_induction generalizing b with
  | h a ih =>
    rw [lack_iff] at h
    rw [odd_iff]
    obtain ⟨hs,k,hk,⟨hkb,-⟩ | ⟨hkb,hlack⟩⟩ := h
    · exact ⟨hs,k,hk,.inl hkb⟩
    · exact ⟨hs,k,hk,.inr ⟨hkb,ih k hk hlack⟩⟩

/-- No member is `undefined`, and none is called `__proto__`. -/
def Clean : Value N → Prop
  | .node _ _ keys _ vals => ∀ k ∈ keys, k ≠ "__proto__" ∧ vals k ≠ .undefined ∧ Clean (vals k)
  | _ => True

theorem lack_of_odd {a b : Value N} (h : Clean a) (hodd : Odd a b) : Lack a b := by
  induction a generalizing b with
  | node addr kind keys nodup vals ih =>
    obtain ⟨hs,k,hk,hkb | ⟨hkb,hodd⟩⟩ := hodd
    · refine ⟨hs,k,hk,.inl ⟨hkb,fun hb => ?_⟩⟩
      unfold blank at hb
      rw [if_neg (h k hk).1] at hb
      exact (h k hk).2.1 hb.2
    · exact ⟨hs,k,hk,.inr ⟨hkb,ih k (h k hk).2.2 hodd⟩⟩
  | _ => cases hodd

theorem clean_structural {mem : ℕ → Value N} {a : Value N} (ha : Stored mem a) (h : Clean a)
    (b : Value N) : deepEqual a b = true ↔ StructEq a b := by
  rw [deepEqual_places ha, structEq_places]
  have h1 := odd_of_lack (a := a) (b := b)
  have h2 := lack_of_odd (b := b) h
  tauto

theorem deepEqual_self {a : Value N} (h : a ≠ .nan) : deepEqual a a = true :=
  (deepEqual_iff a a).mpr (.inl (strictEquals_self h))

theorem not_nan {a b : Value N} (h : deepEqual a b = true) : a ≠ .nan := by
  rintro rfl
  rw [deepEqual_iff] at h
  rcases h with h | ⟨h,-⟩
  · cases h
  · cases h.1

/-- Equal values are `===`, or containers of one shape. -/
theorem deepEqual_cases {mem : ℕ → Value N} {v w : Value N} (hv : Stored mem v)
    (hw : Stored mem w) (h : deepEqual v w = true) : v = w ∨ Similar v w := by
  rcases (deepEqual_iff v w).mp h with h | h
  · exact .inl (eq_of_strictEquals hv hw h)
  · exact .inr h.1

theorem blank_of_deepEqual {mem : ℕ → Value N} {v w : Value N} (hv : Stored mem v)
    (hw : Stored mem w) {k : String} (h : deepEqual v w = true) : blank k v ↔ blank k w := by
  rcases deepEqual_cases hv hw h with rfl | hsim
  · exact Iff.rfl
  · have hv' : v ≠ .undefined := by
      rintro rfl
      cases hsim.1
    have hw' : w ≠ .undefined := by
      rintro rfl
      cases hsim.symm.1
    simp [blank, hsim.2, hv', hw']

theorem deepEqual_blank {mem : ℕ → Value N} {v w : Value N} (hv : Stored mem v)
    (hw : Stored mem w) {k : String} (hb : blank k v) : deepEqual v w = true ↔ blank k w := by
  refine ⟨fun h => (blank_of_deepEqual hv hw h).mp hb,fun hb' => ?_⟩
  rw [deepEqual_iff]
  unfold blank at hb hb'
  by_cases hproto : k = "__proto__"
  · rw [if_pos hproto] at hb hb'
    refine .inr ⟨⟨by rw [hb]; rfl,hb.trans hb'.symm⟩,fun j hj => ?_⟩
    rw [keys_of_shape hb] at hj
    cases hj
  · rw [if_neg hproto] at hb hb'
    rw [hb.2, hb'.2]
    exact .inl rfl

theorem chain_key {mem : ℕ → Value N} {a b c : Value N} (ha : Stored mem a) (hb : Stored mem b)
    (hc : Stored mem c) (hab : Similar a b) (hbc : Similar b c) {k : String} (hk : k ∈ a.keys)
    (h1 : deepEqual (a.get k) (b.get k) = true)
    (h2 : k ∈ b.keys → deepEqual (b.get k) (c.get k) = true)
    (ih : k ∈ b.keys → k ∈ c.keys →
      (deepEqual (a.get k) (c.get k) = true ↔ ¬ Skip (a.get k) (b.get k) (c.get k))) :
    deepEqual (a.get k) (c.get k) = true ↔
      ¬(k ∈ c.keys ∧ ((k ∉ b.keys ∧ ¬ blank k (c.get k)) ∨
        (k ∈ b.keys ∧ Skip (a.get k) (b.get k) (c.get k)))) := by
  have hav := stored_get ha hk
  by_cases hkb : k ∈ b.keys
  · have hbv := stored_get hb hkb
    by_cases hkc : k ∈ c.keys
    · rw [ih hkb hkc]
      simp [hkb, hkc]
    · -- the middle value is blank, and so is the first one
      have h2 := h2 hkb
      rw [get_missing hbc.symm.1 hkc] at h2 ⊢
      have hblank : blank k (a.get k) :=
        (blank_of_deepEqual hav hbv h1).mpr ((deepEqual_inherited hbv k).mp h2)
      simp [hkc, (deepEqual_inherited hav k).mpr hblank]
  · rw [get_missing hab.symm.1 hkb] at h1
    have hblank := (deepEqual_inherited hav k).mp h1
    by_cases hkc : k ∈ c.keys
    · rw [deepEqual_blank hav (stored_get hc hkc) hblank]
      simp [hkb, hkc]
    · rw [get_missing hbc.symm.1 hkc]
      simp [hkc, (deepEqual_inherited hav k).mpr hblank]

theorem chain_iff {mem : ℕ → Value N} {a b c : Value N} (ha : Stored mem a) (hb : Stored mem b)
    (hc : Stored mem c) (hab : deepEqual a b = true) (hbc : deepEqual b c = true) :
    deepEqual a c = true ↔ ¬ Skip a b c := by
  induction a using keys_induction generalizing b c with
  | h a ih =>
    rcases (deepEqual_iff a b).mp hab with hs | ⟨hsab,hallab⟩
    · have := eq_of_strictEquals ha hb hs
      subst this
      simp [hbc, skip_same]
    · rcases (deepEqual_iff b c).mp hbc with hs | ⟨hsbc,hallbc⟩
      · have := eq_of_strictEquals hb hc hs
        subst this
        simp [hab, skip_last]
      · have hkey : ∀ k ∈ a.keys, (deepEqual (a.get k) (c.get k) = true ↔
            ¬(k ∈ c.keys ∧ ((k ∉ b.keys ∧ ¬ blank k (c.get k)) ∨
              (k ∈ b.keys ∧ Skip (a.get k) (b.get k) (c.get k))))) := by
          intro k hk
          refine chain_key ha hb hc hsab hsbc hk (hallab k hk) (hallbc k) (fun hkb hkc => ?_)
          exact ih k hk (stored_get ha hk) (stored_get hb hkb) (stored_get hc hkc) (hallab k hk)
            (hallbc k hkb)
        rw [skip_iff]
        constructor
        · intro h
          -- one and the same container has no NaN here: its members passed against those of `b`
          have hall : ∀ k ∈ a.keys, deepEqual (a.get k) (c.get k) = true := by
            rcases (deepEqual_iff a c).mp h with hs | ⟨-,hall⟩
            · have := eq_of_strictEquals ha hc hs
              subst this
              exact fun k hk => deepEqual_self (not_nan (hallab k hk))
            · exact hall
          rintro ⟨k,hk,hbad⟩
          exact (hkey k hk).mp (hall k hk) hbad
        · intro hno
          refine (deepEqual_iff a c).mpr (.inr ⟨hsab.trans hsbc,fun k hk => (hkey k hk).mpr ?_⟩)
          exact fun hbad => hno ⟨k,hk,hbad⟩

/-- Each law, at the values where it holds. -/
theorem equivalence_iff (mem : ℕ → Value N) (x y z : Plain mem) :
    (x.value ≠ .nan → deepEqual x.value x.value = true) ∧
    ((deepEqual x.value y.value=deepEqual y.value x.value) ↔
      (Alike x.value y.value → (Lack x.value y.value ↔ Lack y.value x.value))) ∧
    ((deepEqual x.value y.value = true → deepEqual y.value z.value = true →
        deepEqual x.value z.value = true) ↔
      ¬((Alike x.value y.value ∧ ¬ Lack x.value y.value) ∧
        (Alike y.value z.value ∧ ¬ Lack y.value z.value) ∧ Skip x.value y.value z.value)) ∧
    ((deepEqual x.value y.value = true ↔ StructEq x.value y.value) ↔
      ¬(Alike x.value y.value ∧ ¬ Lack x.value y.value ∧ Odd x.value y.value)) := by
  have hxy := deepEqual_places x.stored y.value
  refine ⟨deepEqual_self,?_,?_,?_⟩
  · have hsymm : Alike x.value y.value ↔ Alike y.value x.value := ⟨alike_symm,alike_symm⟩
    rw [Bool.eq_iff_iff, hxy, deepEqual_places y.stored, ← hsymm]
    tauto
  · rw [← hxy, ← deepEqual_places y.stored]
    constructor
    · rintro h ⟨h1,h2,hskip⟩
      exact (chain_iff x.stored y.stored z.stored h1 h2).mp (h h1 h2) hskip
    · intro h h1 h2
      exact (chain_iff x.stored y.stored z.stored h1 h2).mpr (fun hskip => h ⟨h1,h2,hskip⟩)
  · rw [hxy, structEq_places]
    have := odd_of_lack (a := x.value) (b := y.value)
    tauto

/-- An object whose only member is `undefined`, beside one with another key. -/
theorem undefined_member :
    ¬ ∀ (mem : ℕ → Value ℕ) (x y : Plain mem),
      deepEqual x.value y.value=deepEqual y.value x.value := by
  let a : Value ℕ := .node 1 .object ["a"] (by decide) (fun _ => .undefined)
  let b : Value ℕ := .node 2 .object ["b"] (by decide) (fun _ => .num 1)
  let mem : ℕ → Value ℕ := fun addr => if addr = 1 then a else b
  have ha : Stored mem a := ⟨rfl,by decide,nofun,fun _ _ => trivial⟩
  have hb : Stored mem b := ⟨rfl,by decide,nofun,fun _ _ => trivial⟩
  intro h
  have : deepEqual a b=deepEqual b a := h mem ⟨a,ha⟩ ⟨b,hb⟩
  exact absurd this (by decide)

end

end Iotistica.DeepEqual
