import Mathlib.Data.List.Nodup
import Mathlib.Data.List.Perm.Subperm

/-!
# Maps that remember the order of insertion

Assigning to a key that is there keeps its place, a new key comes last. The
structure carries the distinctness of the keys, so the number of entries is
the number of keys and a map whose keys lie in another one is not larger.
-/

set_option autoImplicit false

namespace Iotistica

structure OrderedMap (κ β : Type*) where
  entries : List (κ × β)
  nodup : (entries.map Prod.fst).Nodup
  deriving DecidableEq

namespace OrderedMap
variable {κ β γ : Type*}

def empty : OrderedMap κ β := ⟨[],by simp⟩

def keys (m : OrderedMap κ β) : List κ := m.entries.map Prod.fst

def size (m : OrderedMap κ β) : ℕ := m.entries.length

@[simp] theorem keys_empty : (empty : OrderedMap κ β).keys = [] := rfl

@[simp] theorem size_empty : (empty : OrderedMap κ β).size = 0 := rfl

theorem size_eq (m : OrderedMap κ β) : m.size = m.keys.length := by simp [size, keys]

theorem size_le_of_keys_subset {m : OrderedMap κ β} {m' : OrderedMap κ γ}
    (h : m.keys ⊆ m'.keys) : m.size ≤ m'.size := by
  rw [size_eq, size_eq]
  exact (List.subperm_of_subset m.nodup h).length_le

variable [DecidableEq κ]

def get? (m : OrderedMap κ β) (k : κ) : Option β := m.entries.lookup k

theorem lookup_of_mem (es : List (κ × β)) (hn : (es.map Prod.fst).Nodup) {p : κ × β}
    (h : p ∈ es) : es.lookup p.1 = some p.2 := by
  induction es with
  | nil => cases h
  | cons e es ih =>
    have hout := (List.nodup_cons.mp hn).1
    have hn' := (List.nodup_cons.mp hn).2
    rcases List.mem_cons.mp h with rfl | h
    · rw [List.lookup_cons, beq_self_eq_true]
    · have hne : p.1 ≠ e.1 := by
        intro he
        apply hout
        rw [← he]
        exact List.mem_map_of_mem h
      rw [List.lookup_cons, beq_false_of_ne hne]
      exact ih hn' h

theorem lookup_map_snd (f : β → γ) (es : List (κ × β)) (k : κ) :
    (es.map (fun e => (e.1,f e.2))).lookup k = (es.lookup k).map f := by
  induction es with
  | nil => rfl
  | cons e es ih =>
    rw [List.map_cons, List.lookup_cons, List.lookup_cons, ih]
    cases k == e.1 <;> rfl

theorem lookup_filter_fst (keep : κ → Bool) (es : List (κ × β)) (k : κ) :
    (es.filter (fun e => keep e.1)).lookup k = if keep k then es.lookup k else none := by
  induction es with
  | nil => simp
  | cons e es ih =>
    by_cases hk : k = e.1
    · subst hk
      cases hkeep : keep e.1
      · simp only [List.filter_cons, hkeep, Bool.false_eq_true, if_false, ih]
      · rw [List.filter_cons, if_pos hkeep, if_pos rfl, List.lookup_cons, List.lookup_cons,
          beq_self_eq_true]
    · have hne : (k == e.1) = false := beq_false_of_ne hk
      rw [List.filter_cons, List.lookup_cons, hne]
      split
      · rw [List.lookup_cons, hne, ih]
      · exact ih

theorem get?_of_mem {m : OrderedMap κ β} {p : κ × β} (h : p ∈ m.entries) :
    m.get? p.1 = some p.2 :=
  lookup_of_mem m.entries m.nodup h

theorem mem_of_lookup (es : List (κ × β)) {k : κ} {v : β} (h : es.lookup k = some v) :
    (k,v) ∈ es := by
  induction es with
  | nil => simp at h
  | cons e es ih =>
    rw [List.lookup_cons] at h
    by_cases hk : k = e.1
    · rw [hk, beq_self_eq_true] at h
      rw [hk, ← Option.some.inj h]
      exact List.mem_cons_self
    · rw [beq_false_of_ne hk] at h
      exact List.mem_cons_of_mem _ (ih h)

theorem get?_eq_some_iff (m : OrderedMap κ β) (k : κ) (v : β) :
    m.get? k = some v ↔ (k,v) ∈ m.entries :=
  ⟨mem_of_lookup m.entries,get?_of_mem⟩

theorem not_mem_keys_of_get? {m : OrderedMap κ β} {k : κ} (h : m.get? k = none) :
    k ∉ m.keys := by
  intro hk
  obtain ⟨p,hp,rfl⟩ := List.mem_map.mp hk
  rw [get?_of_mem hp] at h
  cases h

def has (m : OrderedMap κ β) (k : κ) : Bool := decide (k ∈ m.keys)

def assign (k : κ) (v : β) (es : List (κ × β)) : List (κ × β) :=
  es.map (fun e => if e.1 = k then (k,v) else e)

theorem map_fst_assign (k : κ) (v : β) (es : List (κ × β)) :
    (assign k v es).map Prod.fst = es.map Prod.fst := by
  rw [assign, List.map_map]
  apply List.map_congr_left
  intro e _
  simp only [Function.comp]
  split
  · rename_i he
    exact he.symm
  · rfl

def set (m : OrderedMap κ β) (k : κ) (v : β) : OrderedMap κ β where
  entries := if k ∈ m.keys then assign k v m.entries else m.entries++[(k,v)]
  nodup := by
    split
    · rw [map_fst_assign]
      exact m.nodup
    · rename_i hk
      rw [List.map_append, List.nodup_append]
      refine ⟨m.nodup,by simp,?_⟩
      intro a ha b hb hab
      obtain rfl : b = k := by simpa using hb
      exact hk (hab ▸ ha)

def delete (m : OrderedMap κ β) (k : κ) : OrderedMap κ β where
  entries := m.entries.filter (fun e => e.1 ≠ k)
  nodup := m.nodup.sublist (List.filter_sublist.map Prod.fst)

def add (m : OrderedMap κ Unit) (k : κ) : OrderedMap κ Unit := m.set k ()

@[simp] theorem has_iff (m : OrderedMap κ β) (k : κ) : m.has k = true ↔ k ∈ m.keys := by
  simp [has]

theorem keys_set (m : OrderedMap κ β) (k : κ) (v : β) :
    (m.set k v).keys = if k ∈ m.keys then m.keys else m.keys++[k] := by
  unfold set
  split
  · exact map_fst_assign k v m.entries
  · simp [keys]

@[simp] theorem mem_set (m : OrderedMap κ β) (k k' : κ) (v : β) :
    k' ∈ (m.set k v).keys ↔ k' = k ∨ k' ∈ m.keys := by
  rw [keys_set]
  split
  · rename_i hk
    exact ⟨Or.inr,fun h => h.elim (fun e => e ▸ hk) id⟩
  · simp [or_comm]

@[simp] theorem mem_add (m : OrderedMap κ Unit) (k k' : κ) :
    k' ∈ (m.add k).keys ↔ k' = k ∨ k' ∈ m.keys := mem_set m k k' ()

@[simp] theorem mem_delete (m : OrderedMap κ β) (k k' : κ) :
    k' ∈ (m.delete k).keys ↔ k' ≠ k ∧ k' ∈ m.keys := by
  simp only [delete, keys, List.mem_map, List.mem_filter, decide_eq_true_eq]
  constructor
  · rintro ⟨e,⟨he,hne⟩,rfl⟩
    exact ⟨hne,e,he,rfl⟩
  · rintro ⟨hne,e,he,rfl⟩
    exact ⟨e,⟨he,hne⟩,rfl⟩

theorem lookup_assign_ne (es : List (κ × β)) {k j : κ} (v : β) (hj : j ≠ k) :
    (assign k v es).lookup j = es.lookup j := by
  induction es with
  | nil => rfl
  | cons e es ih =>
    show ((if e.1 = k then (k,v) else e)::assign k v es).lookup j = _
    rw [List.lookup_cons, List.lookup_cons, ih]
    by_cases he : e.1 = k
    · have hje : j ≠ e.1 := by rw [he]; exact hj
      rw [if_pos he, beq_false_of_ne hj, beq_false_of_ne hje]
    · rw [if_neg he]

theorem lookup_assign_self (es : List (κ × β)) {k : κ} (v : β) (hk : k ∈ es.map Prod.fst) :
    (assign k v es).lookup k = some v := by
  induction es with
  | nil => cases hk
  | cons e es ih =>
    show ((if e.1 = k then (k,v) else e)::assign k v es).lookup k = _
    by_cases he : e.1 = k
    · simp [he]
    · have hk' : k ∈ es.map Prod.fst := by
        rcases List.mem_cons.mp hk with h | h
        · exact absurd h.symm he
        · exact h
      rw [if_neg he, List.lookup_cons, beq_false_of_ne (Ne.symm he)]
      exact ih hk'

theorem lookup_append_single (es : List (κ × β)) {k : κ} (j : κ) (v : β)
    (hk : k ∉ es.map Prod.fst) :
    (es++[(k,v)]).lookup j = if j = k then some v else es.lookup j := by
  induction es with
  | nil =>
    by_cases hj : j = k
    · simp [hj]
    · simp [List.lookup_cons, hj, beq_false_of_ne hj]
  | cons e es ih =>
    have hout : k ∉ es.map Prod.fst := fun h => hk (List.mem_cons_of_mem _ h)
    have hne : e.1 ≠ k := fun h => hk (by simp [h])
    rw [List.cons_append, List.lookup_cons, List.lookup_cons, ih hout]
    by_cases hj : j = e.1
    · subst hj
      simp [hne]
    · simp [beq_false_of_ne hj]

theorem get?_set (m : OrderedMap κ β) (k j : κ) (v : β) :
    (m.set k v).get? j = if j = k then some v else m.get? j := by
  unfold get? set
  by_cases hk : k ∈ m.keys
  · simp only [hk, if_true]
    by_cases hj : j = k
    · subst hj
      rw [if_pos rfl]
      exact lookup_assign_self m.entries v hk
    · rw [if_neg hj]
      exact lookup_assign_ne m.entries v hj
  · simp only [hk, if_false]
    exact lookup_append_single m.entries j v hk

theorem get?_delete (m : OrderedMap κ β) (k j : κ) :
    (m.delete k).get? j = if j = k then none else m.get? j := by
  unfold get? delete
  simp only
  induction m.entries with
  | nil => simp
  | cons e es ih =>
    by_cases he : e.1 = k
    · rw [List.filter_cons, if_neg (by simp [he]), ih, List.lookup_cons]
      by_cases hj : j = k
      · simp [hj]
      · simp [hj, he, beq_false_of_ne hj]
    · rw [List.filter_cons, if_pos (by simp [he]), List.lookup_cons, List.lookup_cons, ih]
      by_cases hj : j = e.1
      · simp [hj, he]
      · simp [beq_false_of_ne hj]

def mapValues (m : OrderedMap κ β) (f : β → γ) : OrderedMap κ γ where
  entries := m.entries.map (fun e => (e.1,f e.2))
  nodup := by simpa [Function.comp_def] using m.nodup

theorem get?_mapValues (m : OrderedMap κ β) (f : β → γ) (k : κ) :
    (m.mapValues f).get? k = (m.get? k).map f := by
  unfold get? mapValues
  simp only
  induction m.entries with
  | nil => simp
  | cons e es ih =>
    rw [List.map_cons, List.lookup_cons, List.lookup_cons, ih]
    by_cases hk : k = e.1
    · simp [hk]
    · simp [beq_false_of_ne hk]

def assignAll (m : OrderedMap κ β) (es : List (κ × β)) : OrderedMap κ β :=
  es.foldl (fun m e => m.set e.1 e.2) m

theorem mem_assignAll (m : OrderedMap κ β) (es : List (κ × β)) (j : κ) :
    j ∈ (m.assignAll es).keys ↔ j ∈ m.keys ∨ j ∈ es.map Prod.fst := by
  induction es generalizing m with
  | nil => simp [assignAll]
  | cons e es ih =>
    show j ∈ ((m.set e.1 e.2).assignAll es).keys ↔ _
    rw [ih, mem_set, List.map_cons, List.mem_cons, or_assoc, or_left_comm]

theorem of_mem_entries_set (m : OrderedMap κ β) {k : κ} {v : β} {e : κ × β}
    (h : e ∈ (m.set k v).entries) : e ∈ m.entries ∨ e = (k,v) := by
  unfold set at h
  simp only at h
  split at h
  · obtain ⟨a,ha,rfl⟩ := List.mem_map.mp h
    split
    · exact Or.inr rfl
    · exact Or.inl ha
  · simpa using h

theorem of_mem_entries_assignAll (m : OrderedMap κ β) (es : List (κ × β)) {e : κ × β}
    (h : e ∈ (m.assignAll es).entries) : e ∈ m.entries ∨ e ∈ es := by
  induction es generalizing m with
  | nil => exact Or.inl h
  | cons a es ih =>
    rcases ih (m.set a.1 a.2) h with hm | hes
    · rcases of_mem_entries_set m hm with hm | rfl
      · exact Or.inl hm
      · exact Or.inr List.mem_cons_self
    · exact Or.inr (List.mem_cons_of_mem _ hes)

theorem entries_assignAll (m : OrderedMap κ β) (es : List (κ × β))
    (hn : (es.map Prod.fst).Nodup) (hfresh : ∀ j ∈ es.map Prod.fst, j ∉ m.keys) :
    (m.assignAll es).entries = m.entries++es := by
  induction es generalizing m with
  | nil => simp [assignAll]
  | cons e es ih =>
    have hout := (List.nodup_cons.mp hn).1
    have hn' := (List.nodup_cons.mp hn).2
    have hnew : e.1 ∉ m.keys := hfresh e.1 (by simp)
    have hset : (m.set e.1 e.2).entries = m.entries++[e] := by
      simp [set, hnew]
    show ((m.set e.1 e.2).assignAll es).entries = _
    rw [ih _ hn', hset, List.append_assoc]
    · rfl
    · intro j hj hmem
      rcases (mem_set m e.1 j e.2).mp hmem with h | h
      · rw [h] at hj
        exact hout hj
      · exact hfresh j (List.mem_cons_of_mem _ hj) h

theorem get?_assignAll (m : OrderedMap κ β) (es : List (κ × β))
    (hn : (es.map Prod.fst).Nodup) (j : κ) :
    (m.assignAll es).get? j = (es.lookup j <|> m.get? j) := by
  induction es generalizing m with
  | nil => simp [assignAll]
  | cons e es ih =>
    have hout := (List.nodup_cons.mp hn).1
    have hn' := (List.nodup_cons.mp hn).2
    show ((m.set e.1 e.2).assignAll es).get? j = _
    rw [ih _ hn', get?_set, List.lookup_cons]
    by_cases hj : j = e.1
    · subst hj
      have hnone : es.lookup e.1 = none := by
        rw [List.lookup_eq_none_iff]
        intro p hp
        apply bne_iff_ne.mpr
        intro he
        apply hout
        rw [he]
        exact List.mem_map_of_mem hp
      simp [hnone]
    · simp [hj, beq_false_of_ne hj]

theorem nodup_of_assignAll_size (es : List (κ × β))
    (h : es.length ≤ ((empty : OrderedMap κ β).assignAll es).size) :
    (es.map Prod.fst).Nodup := by
  have hlen : (es.map Prod.fst).length = es.length := List.length_map _
  rw [size_eq, ← hlen] at h
  have hsub : ((empty : OrderedMap κ β).assignAll es).keys.Subperm (es.map Prod.fst) := by
    apply List.subperm_of_subset (assignAll empty es).nodup
    intro j hj
    simpa using (mem_assignAll empty es j).mp hj
  exact (hsub.perm_of_length_le h).nodup_iff.mp (assignAll empty es).nodup

def filter (m : OrderedMap κ β) (p : κ × β → Bool) : OrderedMap κ β where
  entries := m.entries.filter p
  nodup := m.nodup.sublist (List.filter_sublist.map Prod.fst)

theorem size_set (m : OrderedMap κ β) (k : κ) (v : β) :
    (m.set k v).size = if k ∈ m.keys then m.size else m.size+1 := by
  rw [size_eq, keys_set, size_eq]
  split
  · rfl
  · simp

theorem size_delete_le (m : OrderedMap κ β) (k : κ) : (m.delete k).size ≤ m.size :=
  List.length_filter_le _ _

theorem size_delete_of_mem {m : OrderedMap κ β} {k : κ} (h : k ∈ m.keys) :
    (m.delete k).size+1 = m.size := by
  have hkeys : (m.delete k).keys = m.keys.erase k := by
    rw [keys, keys, m.nodup.erase_eq_filter]
    simp only [delete, List.filter_map]
    congr 1
    refine List.filter_congr fun e _ => ?_
    by_cases he : e.1 = k
    · simp [he]
    · simp [he]
  have hpos := List.length_pos_of_mem h
  rw [size_eq, hkeys, size_eq, List.length_erase_of_mem h]
  omega

end OrderedMap
end Iotistica
