import Mathlib.Data.List.SplitBy
import Mathlib.Data.List.TakeWhile

/-!
# Runs of equal outcomes and thresholds

A sequence of outcomes falls into maximal runs of equal ones. An outcome is
settled by the latest run that was long enough for it. Where longer runs
are never worse, one more outcome settles itself if its run is long enough,
and otherwise changes nothing.
-/

set_option autoImplicit false

namespace Iotistica.ThresholdRuns
variable {α : Type*} [DecidableEq α]

def runs (xs : List α) : List (List α) := xs.splitBy (fun a b => a == b)

/-- How many of the last outcomes are `x`. -/
def trailing (x : α) (xs : List α) : ℕ := (xs.reverse.takeWhile (fun a => a == x)).length

def longEnough (reached : α → ℕ → Bool) (run : List α) : Bool :=
  run.head?.any (fun x => reached x run.length)

def settled (reached : α → ℕ → Bool) (xs : List α) : Option α :=
  (((runs xs).filter (longEnough reached)).getLast?).bind List.head?

@[simp] theorem runs_nil : runs ([] : List α) = [] := rfl

@[simp] theorem settled_nil (reached : α → ℕ → Bool) : settled reached [] = none := rfl

@[simp] theorem trailing_nil (x : α) : trailing x [] = 0 := rfl

@[simp] theorem trailing_append_self (x : α) (xs : List α) :
    trailing x (xs++[x]) = trailing x xs+1 := by
  simp [trailing]

theorem trailing_append_ne {x y : α} (h : y ≠ x) (xs : List α) : trailing x (xs++[y]) = 0 := by
  simp [trailing, h]

/-- A sequence is an older part and the run of `x` at its end. -/
theorem exists_trailing (x : α) (xs : List α) :
    ∃ ys, xs = ys++List.replicate (trailing x xs) x ∧ ∀ y ∈ ys.getLast?, y ≠ x := by
  refine ⟨(xs.reverse.dropWhile (fun a => a == x)).reverse,?_,?_⟩
  · have htake : xs.reverse.takeWhile (fun a => a == x) = List.replicate (trailing x xs) x := by
      rw [List.eq_replicate_iff]
      refine ⟨rfl,fun y hy => ?_⟩
      simpa using List.mem_takeWhile_imp hy
    have hsplit := List.takeWhile_append_dropWhile (p := fun a => a == x) (l := xs.reverse)
    rw [htake] at hsplit
    have hrev := congrArg List.reverse hsplit
    rw [List.reverse_append, List.reverse_replicate, List.reverse_reverse] at hrev
    exact hrev.symm
  · intro y hy
    rw [List.getLast?_reverse] at hy
    have hhead := List.head?_dropWhile_not (fun a => a == x) xs.reverse
    rw [Option.mem_def.mp hy] at hhead
    simpa using hhead

theorem runs_append_replicate {x : α} {ys : List α} (h : ∀ y ∈ ys.getLast?, y ≠ x) (n : ℕ) :
    runs (ys++List.replicate (n+1) x) = runs ys++[List.replicate (n+1) x] := by
  have hne : List.replicate (n+1) x ≠ [] := by simp
  unfold runs
  rw [List.splitBy_append, List.splitBy_of_isChain hne]
  · exact List.isChain_replicate_of_rel (n+1) (by simp)
  · intro y hy z hz
    obtain rfl : x = z := by simpa [List.replicate_succ] using hz
    simpa using h y hy

theorem settled_append_replicate (reached : α → ℕ → Bool) {x : α} {ys : List α}
    (h : ∀ y ∈ ys.getLast?, y ≠ x) (n : ℕ) :
    settled reached (ys++List.replicate (n+1) x) =
      if reached x (n+1) then some x else settled reached ys := by
  unfold settled
  rw [runs_append_replicate h, List.filter_append]
  by_cases hr : reached x (n+1) = true
  · simp [longEnough, List.replicate_succ, hr]
  · simp [longEnough, List.replicate_succ, hr]

theorem settled_append {reached : α → ℕ → Bool}
    (hmono : ∀ x n, reached x n = true → reached x (n+1) = true) (xs : List α) (x : α) :
    settled reached (xs++[x]) =
      if reached x (trailing x xs+1) then some x else settled reached xs := by
  obtain ⟨ys,hxs,hys⟩ := exists_trailing x xs
  generalize trailing x xs = n at hxs
  subst hxs
  rw [List.append_assoc, ← List.replicate_succ', settled_append_replicate reached hys]
  split
  · rfl
  · rename_i hr
    -- the run was too short before it grew as well
    cases n with
    | zero => simp
    | succ n =>
      rw [settled_append_replicate reached hys, if_neg]
      exact fun h => hr (hmono x (n+1) h)

theorem replicate_suffix_iff (n : ℕ) (x : α) (xs : List α) :
    List.replicate n x <:+ xs ↔ n ≤ trailing x xs := by
  induction xs using List.reverseRecOn generalizing n with
  | nil => simp [List.suffix_nil]
  | append_singleton xs y ih =>
    cases n with
    | zero => simp
    | succ n =>
      rw [List.suffix_concat_iff, List.replicate_succ']
      constructor
      · rintro (h | ⟨t,ht,hs⟩)
        · simp at h
        · obtain ⟨rfl,hxy⟩ := List.append_inj' ht rfl
          obtain rfl : x = y := by simpa using hxy
          rw [trailing_append_self]
          exact Nat.succ_le_succ ((ih n).mp hs)
      · intro h
        by_cases hy : y = x
        · subst hy
          rw [trailing_append_self] at h
          exact .inr ⟨_,rfl,(ih n).mpr (Nat.le_of_succ_le_succ h)⟩
        · rw [trailing_append_ne hy] at h
          omega

theorem replicate_infix_append {n : ℕ} (hn : 0 < n) (x y : α) (xs : List α) :
    List.replicate n x <:+: xs++[y] ↔
      List.replicate n x <:+: xs ∨ (y = x ∧ n ≤ trailing x xs+1) := by
  rw [List.infix_concat_iff, replicate_suffix_iff, or_comm]
  refine or_congr Iff.rfl ?_
  by_cases hy : y = x
  · subst hy
    rw [trailing_append_self]
    simp
  · rw [trailing_append_ne hy]
    constructor
    · intro h
      omega
    · exact fun h => absurd h.1 hy

end Iotistica.ThresholdRuns
