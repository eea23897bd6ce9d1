import Mathlib.Data.List.Basic
import Mathlib.Data.List.Nodup

/-!
# Records keyed by a number they carry

An object with numeric keys enumerates its entries in ascending order of
the key. Here the key is read off the record, so an entry filed under a
foreign number cannot be built; replacing and erasing act on one key and
leave every other lookup alone.
-/

set_option autoImplicit false

namespace Iotistica

structure KeyedRecords (α : Type*) (key : α → ℕ) where
  items : List α
  ascending : items.Pairwise (fun a b => key a < key b)

namespace KeyedRecords
variable {α : Type*} {key : α → ℕ}

def empty : KeyedRecords α key := ⟨[],List.Pairwise.nil⟩

def keys (m : KeyedRecords α key) : List ℕ := m.items.map key

def find? (m : KeyedRecords α key) (k : ℕ) : Option α := m.items.find? (fun a => key a == k)

def place (key : α → ℕ) (a : α) : List α → List α
  | [] => [a]
  | b::bs =>
    if key a < key b then a::b::bs
    else if key a = key b then a::bs
    else b::place key a bs

theorem mem_place {a x : α} {bs : List α} (h : x ∈ place key a bs) : x = a ∨ x ∈ bs := by
  induction bs with
  | nil => exact Or.inl (by simpa [place] using h)
  | cons b bs ih =>
    simp only [place] at h
    split_ifs at h
    · exact List.mem_cons.mp h
    · rcases List.mem_cons.mp h with h | h
      · exact Or.inl h
      · exact Or.inr (List.mem_cons_of_mem _ h)
    · rcases List.mem_cons.mp h with h | h
      · exact Or.inr (by simp [h])
      · rcases ih h with h | h
        · exact Or.inl h
        · exact Or.inr (List.mem_cons_of_mem _ h)

theorem place_ascending (a : α) (bs : List α) (h : bs.Pairwise (fun a b => key a < key b)) :
    (place key a bs).Pairwise (fun a b => key a < key b) := by
  induction bs with
  | nil => exact List.pairwise_singleton _ _
  | cons b bs ih =>
    have hb := (List.pairwise_cons.mp h).1
    have ht := (List.pairwise_cons.mp h).2
    simp only [place]
    split_ifs with hlt heq
    · apply List.pairwise_cons.mpr
      refine ⟨fun x hx => ?_,h⟩
      rcases List.mem_cons.mp hx with rfl | hx
      · exact hlt
      · exact Nat.lt_trans hlt (hb x hx)
    · apply List.pairwise_cons.mpr
      refine ⟨fun x hx => ?_,ht⟩
      rw [heq]
      exact hb x hx
    · apply List.pairwise_cons.mpr
      refine ⟨fun x hx => ?_,ih ht⟩
      rcases mem_place hx with rfl | hx
      · omega
      · exact hb x hx

def put (m : KeyedRecords α key) (a : α) : KeyedRecords α key :=
  ⟨place key a m.items,place_ascending a m.items m.ascending⟩

def erase (m : KeyedRecords α key) (k : ℕ) : KeyedRecords α key :=
  ⟨m.items.filter (fun a => key a != k),m.ascending.filter _⟩

theorem key_of_find? {m : KeyedRecords α key} {k : ℕ} {a : α} (h : m.find? k = some a) :
    key a = k := by
  simpa using List.find?_some h

theorem find?_none_iff {m : KeyedRecords α key} {k : ℕ} : m.find? k = none ↔ k ∉ m.keys := by
  simp [find?, keys]

theorem find?_put (m : KeyedRecords α key) (a : α) (k : ℕ) :
    (m.put a).find? k = if k = key a then some a else m.find? k := by
  show (place key a m.items).find? (fun b => key b == k) = _
  unfold find?
  induction m.items with
  | nil =>
    by_cases hk : k = key a
    · simp [place, hk]
    · simp [place, hk, Ne.symm hk]
  | cons b bs ih =>
    by_cases hlt : key a < key b
    · by_cases hk : k = key a
      · simp [place, hlt, hk]
      · simp [place, hlt, hk, Ne.symm hk]
    · by_cases heq : key a = key b
      · by_cases hk : k = key a
        · simp [place, heq, hk]
        · have hb : key b ≠ k := by omega
          simp [place, heq, hb, Ne.symm hb]
      · by_cases hb : key b = k
        · subst hb
          simp [place, hlt, heq, Ne.symm heq]
        · simpa [place, hlt, heq, hb] using ih

theorem find?_erase (m : KeyedRecords α key) (j k : ℕ) :
    (m.erase j).find? k = if k = j then none else m.find? k := by
  show (m.items.filter (fun a => key a != j)).find? (fun b => key b == k) = _
  unfold find?
  induction m.items with
  | nil => simp
  | cons b bs ih =>
    by_cases hbj : key b = j
    · have hd : (b::bs).filter (fun a => key a != j) = bs.filter (fun a => key a != j) := by
        simp [hbj]
      rw [hd, ih]
      by_cases hk : k = j
      · simp [hk]
      · have hne : key b ≠ k := by omega
        simp [hk, hne]
    · have hd : (b::bs).filter (fun a => key a != j) = b::bs.filter (fun a => key a != j) := by
        simp [hbj]
      rw [hd]
      by_cases hbk : key b = k
      · have hk : k ≠ j := by omega
        simp [hbk, hk]
      · simp [hbk, ih]

end KeyedRecords
end Iotistica
