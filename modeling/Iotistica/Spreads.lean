import Iotistica.OrderedMap

/-!
# Spreading one map over another

A map is determined by the order of its keys and by what it has under each
of them. Assigning the same list twice does what assigning it once does.
-/

set_option autoImplicit false

namespace Iotistica.OrderedMap
variable {κ β : Type*} [DecidableEq κ]

theorem entries_eq (m : OrderedMap κ β) :
    m.entries = m.keys.filterMap (fun k => (m.get? k).map (fun v => (k,v))) := by
  have hall : ∀ es : List (κ × β), (∀ e ∈ es, m.get? e.1 = some e.2) →
      es = (es.map Prod.fst).filterMap (fun k => (m.get? k).map (fun v => (k,v))) := by
    intro es
    induction es with
    | nil => intro _; rfl
    | cons e es ih =>
      intro h
      have he := h e List.mem_cons_self
      rw [List.map_cons, List.filterMap_cons, he]
      exact congrArg (e :: ·) (ih (fun a ha => h a (List.mem_cons_of_mem _ ha)))
  exact hall m.entries (fun e he => get?_of_mem he)

theorem ext_get {m m' : OrderedMap κ β} (hkeys : m.keys = m'.keys)
    (hget : ∀ k, m.get? k = m'.get? k) : m = m' := by
  have hentries : m.entries = m'.entries := by
    rw [entries_eq m, entries_eq m', hkeys]
    exact congrArg (m'.keys.filterMap ·) (funext fun k => by rw [hget k])
  cases m
  cases m'
  simp only at hentries
  subst hentries
  rfl

theorem set_same {m : OrderedMap κ β} {k : κ} {v : β} (h : m.get? k = some v) :
    m.set k v = m := by
  have hk : k ∈ m.keys := List.mem_map_of_mem (f := Prod.fst) (mem_of_lookup m.entries h)
  apply ext_get
  · rw [keys_set, if_pos hk]
  · intro j
    rw [get?_set]
    split
    · rename_i hj
      rw [hj, h]
    · rfl

theorem get?_assignAll_last (m : OrderedMap κ β) (es : List (κ × β)) (j : κ) :
    (m.assignAll es).get? j = (es.reverse.lookup j).or (m.get? j) := by
  induction es generalizing m with
  | nil => rfl
  | cons e es ih =>
    show ((m.set e.1 e.2).assignAll es).get? j = _
    rw [ih, get?_set, List.reverse_cons, List.lookup_append, Option.or_assoc]
    apply congrArg
    by_cases hj : j = e.1
    · rw [if_pos hj, hj, List.lookup_cons, beq_self_eq_true]
      rfl
    · rw [if_neg hj, List.lookup_cons, beq_false_of_ne hj]
      rfl

theorem keys_assignAll_of_subset (m : OrderedMap κ β) (es : List (κ × β))
    (h : ∀ j ∈ es.map Prod.fst, j ∈ m.keys) : (m.assignAll es).keys = m.keys := by
  induction es generalizing m with
  | nil => rfl
  | cons e es ih =>
    have he : e.1 ∈ m.keys := h e.1 List.mem_cons_self
    have hset : (m.set e.1 e.2).keys = m.keys := by rw [keys_set, if_pos he]
    show ((m.set e.1 e.2).assignAll es).keys = _
    rw [ih _ (fun j hj => by rw [hset]; exact h j (List.mem_cons_of_mem _ hj)), hset]

theorem assignAll_twice (m : OrderedMap κ β) (es : List (κ × β)) :
    (m.assignAll es).assignAll es = m.assignAll es := by
  apply ext_get
  · apply keys_assignAll_of_subset
    intro j hj
    exact (mem_assignAll m es j).mpr (Or.inr hj)
  · intro j
    rw [get?_assignAll_last, get?_assignAll_last, ← Option.or_assoc, Option.or_self]

theorem assignAll_append (m : OrderedMap κ β) (es fs : List (κ × β)) :
    m.assignAll (es++fs) = (m.assignAll es).assignAll fs := List.foldl_append

theorem assignAll_entries (m : OrderedMap κ β) : empty.assignAll m.entries = m := by
  have h := entries_assignAll empty m.entries m.nodup (fun j _ => by simp)
  cases m
  simp only [empty, List.nil_append] at h
  cases hm : assignAll (⟨[],by simp⟩ : OrderedMap κ β) _ with
  | mk entries nodup =>
    rw [hm] at h
    simp only at h
    subst h
    exact hm

end Iotistica.OrderedMap
