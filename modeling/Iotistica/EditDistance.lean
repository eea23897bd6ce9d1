import Mathlib.Data.List.Basic
import Mathlib.Order.Bounds.Basic
import Mathlib.Order.MinMax
import Mathlib.Order.Nat

/-!
# The edit distance of two lists

An edit inserts, deletes or substitutes one element. The distance of two
lists is the least number of edits that lead from one to the other. It is
computed from the heads by the usual recursion.
-/

set_option autoImplicit false

namespace Iotistica.EditDistance

variable {α : Type*}

inductive Edit : List α → List α → Prop
  | insert (us vs : List α) (c : α) : Edit (us++vs) (us++c::vs)
  | delete (us vs : List α) (c : α) : Edit (us++c::vs) (us++vs)
  | substitute (us vs : List α) (c d : α) : Edit (us++c::vs) (us++d::vs)

inductive Edits : ℕ → List α → List α → Prop
  | none (xs : List α) : Edits 0 xs xs
  | step {n : ℕ} {xs ys zs : List α} (h : Edit xs ys) (hs : Edits n ys zs) : Edits (n+1) xs zs

theorem Edit.cons {xs ys : List α} (h : Edit xs ys) (x : α) : Edit (x::xs) (x::ys) := by
  cases h with
  | insert us vs c => exact .insert (x::us) vs c
  | delete us vs c => exact .delete (x::us) vs c
  | substitute us vs c d => exact .substitute (x::us) vs c d

theorem Edit.symm {xs ys : List α} (h : Edit xs ys) : Edit ys xs := by
  cases h with
  | insert us vs c => exact .delete us vs c
  | delete us vs c => exact .insert us vs c
  | substitute us vs c d => exact .substitute us vs d c

theorem Edit.reverse {xs ys : List α} (h : Edit xs ys) : Edit xs.reverse ys.reverse := by
  cases h with
  | insert us vs c => simpa using Edit.insert vs.reverse us.reverse c
  | delete us vs c => simpa using Edit.delete vs.reverse us.reverse c
  | substitute us vs c d => simpa using Edit.substitute vs.reverse us.reverse c d

theorem Edits.cons {n : ℕ} {xs ys : List α} (h : Edits n xs ys) (x : α) :
    Edits n (x::xs) (x::ys) := by
  induction h with
  | none xs => exact .none _
  | step h _ ih => exact .step (h.cons x) ih

theorem Edits.append {n : ℕ} {xs ys zs : List α} (h : Edits n xs ys) (hl : Edit ys zs) :
    Edits (n+1) xs zs := by
  induction h with
  | none xs => exact .step hl (.none _)
  | step h _ ih => exact .step h (ih hl)

theorem Edits.symm {n : ℕ} {xs ys : List α} (h : Edits n xs ys) : Edits n ys xs := by
  induction h with
  | none xs => exact .none _
  | step h _ ih => exact ih.append h.symm

theorem Edits.reverse {n : ℕ} {xs ys : List α} (h : Edits n xs ys) :
    Edits n xs.reverse ys.reverse := by
  induction h with
  | none xs => exact .none _
  | step h _ ih => exact .step h.reverse ih

theorem edits_reverse (n : ℕ) (xs ys : List α) :
    Edits n xs.reverse ys.reverse ↔ Edits n xs ys := by
  refine ⟨fun h => ?_,Edits.reverse⟩
  simpa using h.reverse

theorem edits_zero {xs ys : List α} : Edits 0 xs ys ↔ xs=ys := by
  constructor
  · intro h
    cases h
    rfl
  · rintro rfl
    exact .none _

theorem edits_insertAll (ys : List α) : Edits ys.length [] ys := by
  induction ys with
  | nil => exact .none _
  | cons y ys ih => exact (ih.append (.insert [] ys y))

variable [DecidableEq α]

def distance : List α → List α → ℕ
  | [], ys => ys.length
  | x::xs, [] => (x::xs).length
  | x::xs, y::ys => min (distance xs (y::ys)+1)
      (min (distance (x::xs) ys+1) (distance xs ys+if x = y then 0 else 1))
termination_by xs ys => xs.length+ys.length

@[simp] theorem distance_nil (ys : List α) : distance [] ys=ys.length := by
  rw [distance]

@[simp] theorem distance_nil_right (xs : List α) : distance xs []=xs.length := by
  cases xs <;> simp [distance]

theorem distance_cons (x y : α) (xs ys : List α) : distance (x::xs) (y::ys)=
    min (distance xs (y::ys)+1)
      (min (distance (x::xs) ys+1) (distance xs ys+if x = y then 0 else 1)) := by
  rw [distance]

theorem edits_distance (xs ys : List α) : Edits (distance xs ys) xs ys := by
  induction xs, ys using distance.induct with
  | case1 ys =>
    rw [distance_nil]
    exact edits_insertAll ys
  | case2 x xs =>
    rw [distance_nil_right]
    exact (edits_insertAll (x::xs)).symm
  | case3 x xs y ys ih1 ih2 ih3 =>
    rw [distance_cons]
    rcases min_choice (distance xs (y::ys)+1)
      (min (distance (x::xs) ys+1) (distance xs ys+if x = y then 0 else 1)) with h | h
    · rw [h]
      exact .step (.delete [] xs x) ih1
    · rw [h]
      rcases min_choice (distance (x::xs) ys+1) (distance xs ys+if x = y then 0 else 1) with h | h
      · rw [h]
        exact .step (.insert [] (x::xs) y) (ih2.cons y)
      · rw [h]
        by_cases hxy : x=y
        · subst hxy
          simpa using ih3.cons x
        · rw [if_neg hxy]
          exact .step (.substitute [] xs x y) (ih3.cons y)

theorem distance_insert (x : α) (xs zs : List α) :
    distance (x::xs) zs ≤ distance xs zs+1 := by
  cases zs with
  | nil => simp
  | cons z zs =>
    rw [distance_cons]
    exact Nat.min_le_left _ _

theorem distance_insert_right (z : α) (xs zs : List α) :
    distance xs (z::zs) ≤ distance xs zs+1 := by
  cases xs with
  | nil => simp
  | cons x xs =>
    rw [distance_cons]
    exact Nat.le_trans (Nat.min_le_right _ _) (Nat.min_le_left _ _)

theorem distance_delete (x : α) (xs zs : List α) :
    distance xs zs ≤ distance (x::xs) zs+1 := by
  induction zs with
  | nil =>
    simp
    omega
  | cons z zs ih =>
    have h1 := distance_insert_right z xs zs
    rw [distance_cons]
    omega

theorem distance_substitute (x y : α) (xs zs : List α) :
    distance (x::xs) zs ≤ distance (y::xs) zs+1 := by
  induction zs with
  | nil => simp
  | cons z zs ih =>
    rw [distance_cons, distance_cons]
    have : (if x = z then 0 else 1) ≤ 1 := by split <;> omega
    omega

theorem distance_behind {xs ys : List α} (h : ∀ zs, distance xs zs ≤ distance ys zs+1) (x : α)
    (zs : List α) : distance (x::xs) zs ≤ distance (x::ys) zs+1 := by
  induction zs with
  | nil =>
    have := h []
    simp at this ⊢
    omega
  | cons z zs ih =>
    have h1 := h (z::zs)
    have h2 := h zs
    rw [distance_cons, distance_cons]
    omega

theorem distance_edit {xs ys : List α} (h : Edit xs ys) (zs : List α) :
    distance xs zs ≤ distance ys zs+1 := by
  cases h with
  | insert us vs c =>
    induction us generalizing zs with
    | nil => exact distance_delete c vs zs
    | cons u us ih => exact distance_behind ih u zs
  | delete us vs c =>
    induction us generalizing zs with
    | nil => exact distance_insert c vs zs
    | cons u us ih => exact distance_behind ih u zs
  | substitute us vs c d =>
    induction us generalizing zs with
    | nil => exact distance_substitute c d vs zs
    | cons u us ih => exact distance_behind ih u zs

theorem distance_self (xs : List α) : distance xs xs=0 := by
  induction xs with
  | nil => rw [distance_nil]; rfl
  | cons x xs ih =>
    rw [distance_cons, ih]
    simp

theorem distance_le {n : ℕ} {xs ys : List α} (h : Edits n xs ys) : distance xs ys ≤ n := by
  induction h with
  | none xs => rw [distance_self]
  | step h _ ih =>
    have := distance_edit h
    exact Nat.le_trans (this _) (Nat.succ_le_succ ih)

theorem isLeast_distance (xs ys : List α) : IsLeast {n | Edits n xs ys} (distance xs ys) :=
  ⟨edits_distance xs ys,fun _ h => distance_le h⟩

theorem distance_reverse (xs ys : List α) : distance xs.reverse ys.reverse=distance xs ys := by
  apply le_antisymm
  · exact distance_le (edits_distance xs ys).reverse
  · exact distance_le ((edits_reverse _ xs ys).mp (edits_distance xs.reverse ys.reverse))

theorem distance_symm (xs ys : List α) : distance xs ys=distance ys xs :=
  le_antisymm (distance_le (edits_distance ys xs).symm) (distance_le (edits_distance xs ys).symm)

theorem distance_eq_zero {xs ys : List α} : distance xs ys=0 ↔ xs=ys := by
  constructor
  · intro h
    have := edits_distance xs ys
    rw [h] at this
    exact edits_zero.mp this
  · rintro rfl
    exact distance_self xs

theorem distance_le_max (xs ys : List α) : distance xs ys ≤ max xs.length ys.length := by
  induction xs generalizing ys with
  | nil => simp
  | cons x xs ih =>
    cases ys with
    | nil => simp
    | cons y ys =>
      have := ih ys
      rw [distance_cons]
      have hcost : (if x = y then 0 else 1) ≤ 1 := by split <;> omega
      simp only [List.length_cons]
      omega

end Iotistica.EditDistance
