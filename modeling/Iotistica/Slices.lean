import Mathlib.Data.List.TakeDrop
import Mathlib.Data.List.Infix

/-!
# Slices of one size

A loop that takes `slice(i, i+n)` for `i` from zero in steps of `n` goes
through the whole list, in order, and its first passes through a beginning of
it.
-/

set_option autoImplicit false

namespace Iotistica.Slices

variable {α : Type*}

def slices (n : ℕ) (xs : List α) : List (List α) :=
  (List.range ((xs.length+(n-1))/n)).map (fun i => (xs.drop (n*i)).take n)

theorem flatten_slice_range (n k : ℕ) (xs : List α) :
    ((List.range k).map (fun i => (xs.drop (n*i)).take n)).flatten = xs.take (n*k) := by
  induction k with
  | zero => simp
  | succ k ih =>
    rw [List.range_succ, List.map_append, List.flatten_append, ih, Nat.mul_succ, List.take_add]
    simp

theorem length_le_slices {n : ℕ} (hn : 0 < n) (xs : List α) :
    xs.length ≤ n*((xs.length+(n-1))/n) := by
  have hdiv := Nat.div_add_mod (xs.length+(n-1)) n
  have hmod := Nat.mod_lt (xs.length+(n-1)) hn
  omega

theorem flatten_slices {n : ℕ} (hn : 0 < n) (xs : List α) : (slices n xs).flatten = xs := by
  unfold slices
  rw [flatten_slice_range, List.take_of_length_le (length_le_slices hn xs)]

theorem flatten_take_slices {n : ℕ} (hn : 0 < n) (j : ℕ) (xs : List α) :
    ((slices n xs).take j).flatten = xs.take (n*j) := by
  unfold slices
  rw [← List.map_take, List.take_range, flatten_slice_range]
  rcases Nat.le_total j ((xs.length+(n-1))/n) with h | h
  · rw [Nat.min_eq_left h]
  · have hlen := length_le_slices hn xs
    rw [Nat.min_eq_right h, List.take_of_length_le hlen,
      List.take_of_length_le (le_trans hlen (Nat.mul_le_mul_left n h))]

theorem slices_one (xs : List α) : slices 1 xs = xs.map (fun x => [x]) := by
  apply List.ext_getElem
  · simp [slices]
  · intro i h _
    have hi : i < xs.length := by simpa [slices] using h
    simp only [slices, List.getElem_map, List.getElem_range, Nat.one_mul]
    rw [List.drop_eq_getElem_cons hi]
    rfl

theorem length_slices (n : ℕ) (xs : List α) :
    (slices n xs).length = (xs.length+(n-1))/n := by
  simp [slices]

theorem lt_length_slices {n : ℕ} (hn : 0 < n) (j : ℕ) (xs : List α) :
    j < (slices n xs).length ↔ n*j < xs.length := by
  rw [length_slices, Nat.lt_iff_add_one_le, Nat.le_div_iff_mul_le hn, Nat.succ_mul,
    Nat.mul_comm j n]
  omega

end Iotistica.Slices
