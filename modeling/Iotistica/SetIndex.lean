import Iotistica.OrderedMap

/-!
# An index of sets

Keys lead to sets that are never empty: the set of a key goes with its last
member. An index holds a relation between keys and members, and adding or
dropping one member at a list of keys changes the relation there.
-/

set_option autoImplicit false

namespace Iotistica

structure SetIndex (κ σ : Type*) [DecidableEq κ] where
  sets : OrderedMap κ (OrderedMap σ Unit)
  inhabited : ∀ k xs, sets.get? k = some xs → xs.keys ≠ []

namespace SetIndex
variable {κ σ : Type*} [DecidableEq κ]

def empty : SetIndex κ σ := ⟨OrderedMap.empty,fun _ _ h => by cases h⟩

def members (ix : SetIndex κ σ) (k : κ) : List σ :=
  match ix.sets.get? k with
  | none => []
  | some xs => xs.keys

theorem nodup_members (ix : SetIndex κ σ) (k : κ) : (ix.members k).Nodup := by
  unfold members
  split
  · exact List.nodup_nil
  · rename_i xs _
    exact xs.nodup

@[simp] theorem members_empty (k : κ) : (empty : SetIndex κ σ).members k = [] := rfl

variable [DecidableEq σ]

def add (x : σ) (ix : SetIndex κ σ) (k : κ) : SetIndex κ σ where
  sets := ix.sets.set k (((ix.sets.get? k).getD OrderedMap.empty).add x)
  inhabited := by
    intro j xs h
    rw [OrderedMap.get?_set] at h
    split at h
    · obtain rfl := Option.some.inj h
      exact List.ne_nil_of_mem ((OrderedMap.mem_add _ x x).mpr (Or.inl rfl))
    · exact ix.inhabited j xs h

theorem members_add (x : σ) (ix : SetIndex κ σ) (k j : κ) (y : σ) :
    y ∈ (ix.add x k).members j ↔ y ∈ ix.members j ∨ (j = k ∧ y = x) := by
  unfold members add
  simp only [OrderedMap.get?_set]
  by_cases hj : j = k
  · subst hj
    rw [if_pos rfl]
    cases hget : ix.sets.get? j with
    | none =>
      simp only [Option.getD_none, OrderedMap.mem_add, OrderedMap.keys_empty, List.not_mem_nil,
        or_false, false_or, true_and]
    | some xs =>
      simp only [Option.getD_some, OrderedMap.mem_add, true_and]
      exact or_comm
  · simp only [hj, if_false, false_and, or_false]

def drop (x : σ) (ix : SetIndex κ σ) (k : κ) : SetIndex κ σ :=
  match ix.sets.get? k with
  | none => ix
  | some xs =>
    if h : (xs.delete x).keys = [] then
      { sets := ix.sets.delete k
        inhabited := by
          intro j ys hget
          rw [OrderedMap.get?_delete] at hget
          split at hget
          · cases hget
          · exact ix.inhabited j ys hget }
    else
      { sets := ix.sets.set k (xs.delete x)
        inhabited := by
          intro j ys hget
          rw [OrderedMap.get?_set] at hget
          split at hget
          · obtain rfl := Option.some.inj hget
            exact h
          · exact ix.inhabited j ys hget }

theorem members_drop (x : σ) (ix : SetIndex κ σ) (k j : κ) (y : σ) :
    y ∈ (ix.drop x k).members j ↔ y ∈ ix.members j ∧ ¬(j = k ∧ y = x) := by
  unfold drop
  split
  · rename_i hget
    have hnone : ix.members k = [] := by
      unfold members
      rw [hget]
    constructor
    · intro hy
      refine ⟨hy,?_⟩
      rintro ⟨rfl,-⟩
      rw [hnone] at hy
      cases hy
    · exact And.left
  · rename_i xs hget
    have hsome : ix.members k = xs.keys := by
      unfold members
      rw [hget]
    by_cases hj : j = k
    · subst hj
      rw [hsome]
      have hrest : y ∈ (xs.delete x).keys ↔ y ∈ xs.keys ∧ ¬(j = j ∧ y = x) := by
        simp only [OrderedMap.mem_delete, true_and]
        exact and_comm
      split
      · rename_i hempty
        rw [← hrest, hempty]
        unfold members
        simp [OrderedMap.get?_delete]
      · rw [← hrest]
        unfold members
        simp only [OrderedMap.get?_set, if_true]
    · simp only [hj, false_and, not_false_eq_true, and_true]
      split
      · unfold members
        simp only [OrderedMap.get?_delete, if_neg hj]
      · unfold members
        simp only [OrderedMap.get?_set, if_neg hj]

def addAll (x : σ) (ks : List κ) (ix : SetIndex κ σ) : SetIndex κ σ := ks.foldl (add x) ix

def dropAll (x : σ) (ks : List κ) (ix : SetIndex κ σ) : SetIndex κ σ := ks.foldl (drop x) ix

theorem members_addAll (x : σ) (ks : List κ) (ix : SetIndex κ σ) (j : κ) (y : σ) :
    y ∈ (ix.addAll x ks).members j ↔ y ∈ ix.members j ∨ (j ∈ ks ∧ y = x) := by
  induction ks generalizing ix with
  | nil => simp [addAll]
  | cons k ks ih =>
    have hrest := ih (ix.add x k)
    rw [members_add] at hrest
    rw [addAll, List.foldl_cons, ← addAll, hrest, List.mem_cons]
    tauto

theorem members_dropAll (x : σ) (ks : List κ) (ix : SetIndex κ σ) (j : κ) (y : σ) :
    y ∈ (ix.dropAll x ks).members j ↔ y ∈ ix.members j ∧ ¬(j ∈ ks ∧ y = x) := by
  induction ks generalizing ix with
  | nil => simp [dropAll]
  | cons k ks ih =>
    have hrest := ih (ix.drop x k)
    rw [members_drop] at hrest
    rw [dropAll, List.foldl_cons, ← dropAll, hrest, List.mem_cons]
    tauto

end SetIndex

end Iotistica
