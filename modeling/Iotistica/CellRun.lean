import Iotistica.GuardedRun
import Mathlib.Data.List.Nodup

/-!
# Machines whose state is made of independent cells

Every event names at most one cell, changes that cell by an effect that
reads the cell alone, and leaves the others as they are. A run of the
machine then acts on each cell as the run of that cell's own events, so a
plan over many cells is followed cell by cell. The second part picks one
cell's events out of a plan that is assembled item by item.
-/

set_option autoImplicit false

namespace Iotistica.CellRun
open Iotistica.GuardedRun

section Run
variable {S E κ V : Type*} [DecidableEq κ]

def ofCell (cell : E → Option κ) (k : κ) (e : E) : Bool := cell e == some k

/-- `I` is what the step needs of the whole state; `ok` is asked of the
cell an event names, in the contents the cell has by then. -/
structure Simulates (step : S → E → S) (view : S → κ → V) (cell : E → Option κ)
    (effect : V → E → V) (ok : V → E → Prop) (I : S → Prop) : Prop where
  idle : ∀ s e, I s → cell e = none → I (step s e) ∧ ∀ k, view (step s e) k = view s k
  named : ∀ s e k, I s → cell e = some k → ok (view s k) e →
    I (step s e) ∧ view (step s e) k = effect (view s k) e ∧
      ∀ j, j ≠ k → view (step s e) j = view s j

variable {step : S → E → S} {view : S → κ → V} {cell : E → Option κ}
  {effect : V → E → V} {ok : V → E → Prop} {I : S → Prop}

theorem run_cells (h : Simulates step view cell effect ok I) (es : List E) (s : S) (hi : I s)
    (hok : ∀ k, Meets effect ok (es.filter (ofCell cell k)) (view s k)) :
    I (run step es s) ∧
      ∀ k, view (run step es s) k = run effect (es.filter (ofCell cell k)) (view s k) := by
  induction es generalizing s with
  | nil => exact ⟨hi,fun k => rfl⟩
  | cons e es ih =>
    cases hc : cell e with
    | none =>
      have hskip : ∀ k, (e::es).filter (ofCell cell k) = es.filter (ofCell cell k) := by
        intro k
        simp [ofCell, hc]
      have hidle := h.idle s e hi hc
      have hrest := ih (step s e) hidle.1 (by
        intro k
        rw [hidle.2 k, ← hskip k]
        exact hok k)
      refine ⟨hrest.1,fun k => ?_⟩
      rw [run_cons, hrest.2 k, hidle.2 k, hskip k]
    | some k₀ =>
      have hown : (e::es).filter (ofCell cell k₀) = e::es.filter (ofCell cell k₀) := by
        simp [ofCell, hc]
      have hskip : ∀ j, j ≠ k₀ → (e::es).filter (ofCell cell j) = es.filter (ofCell cell j) := by
        intro j hj
        simp [ofCell, hc, Ne.symm hj]
      have hok₀ := hok k₀
      rw [hown] at hok₀
      have hnamed := h.named s e k₀ hi hc hok₀.1
      have hrest := ih (step s e) hnamed.1 (by
        intro k
        by_cases hk : k = k₀
        · subst hk
          rw [hnamed.2.1]
          exact hok₀.2
        · rw [hnamed.2.2 k hk, ← hskip k hk]
          exact hok k)
      refine ⟨hrest.1,fun k => ?_⟩
      rw [run_cons, hrest.2 k]
      by_cases hk : k = k₀
      · subst hk
        rw [hnamed.2.1, hown, run_cons]
      · rw [hnamed.2.2 k hk, hskip k hk]

/-- A relation between the events of one cell is one of that cell's own
events. -/
theorem pairwise_cells {R : E → E → Prop} (hidle : ∀ x y, cell y = none → R x y) (es : List E) :
    es.Pairwise (fun x y => cell x = cell y → R x y) ↔
      ∀ k, (es.filter (ofCell cell k)).Pairwise R := by
  constructor
  · intro h k
    apply List.pairwise_filter.mpr
    apply h.imp
    intro x y hr hx hy
    apply hr
    simp only [ofCell, beq_iff_eq] at hx hy
    rw [hx, hy]
  · intro h
    apply List.pairwise_iff_forall_sublist.mpr
    intro x y hxy he
    cases hy : cell y with
    | none => exact hidle x y hy
    | some k =>
      have hk := List.pairwise_filter.mp (h k)
      have hr := List.pairwise_iff_forall_sublist.mp hk hxy
      apply hr
      · simp [ofCell, he, hy]
      · simp [ofCell, hy]

end Run

section Assembly
variable {α β : Type*}

theorem nodup_eraseDups [BEq α] [LawfulBEq α] (xs : List α) : xs.eraseDups.Nodup := by
  induction hn : xs.length using Nat.strongRecOn generalizing xs with
  | ind n ih =>
    cases xs with
    | nil => simp
    | cons x xs =>
      rw [List.eraseDups_cons]
      have hlen := List.length_filter_le (fun b => !b == x) xs
      apply List.nodup_cons.mpr
      refine ⟨?_,ih (xs.filter (fun b => !b == x)).length (by simp at hn; omega) _ rfl⟩
      rw [List.mem_eraseDups]
      simp

/-- What the items of one key contribute to a plan, when the others
contribute nothing the filter keeps. -/
theorem filter_flatMap_key (key : α → ℕ) (f : α → List β) (p : β → Bool) (k : ℕ)
    (hother : ∀ x, key x ≠ k → (f x).filter p = []) (xs : List α) :
    (xs.flatMap f).filter p =
      (xs.filter (fun x => key x == k)).flatMap (fun x => (f x).filter p) := by
  induction xs with
  | nil => rfl
  | cons x xs ih =>
    rw [List.flatMap_cons, List.filter_append, ih]
    by_cases hx : key x = k
    · simp [hx]
    · simp [hx, hother x hx]

/-- What one item contributes to a plan, when no other item contributes
anything the filter keeps. -/
theorem filter_flatMap_of_key (key : α → ℕ) (f : α → List β) (p : β → Bool) (k : ℕ)
    (hother : ∀ x, key x ≠ k → (f x).filter p = []) (xs : List α) (hn : (xs.map key).Nodup) :
    (xs.flatMap f).filter p =
      ((xs.find? (fun x => key x == k)).map (fun x => (f x).filter p)).getD [] := by
  induction xs with
  | nil => rfl
  | cons x xs ih =>
    have hout := (List.nodup_cons.mp hn).1
    have hn' := (List.nodup_cons.mp hn).2
    rw [List.flatMap_cons, List.filter_append]
    by_cases hx : key x = k
    · have hrest : (xs.flatMap f).filter p = [] := by
        rw [List.filter_eq_nil_iff]
        intro y hy hp
        have hmem := List.mem_flatMap.mp hy
        obtain ⟨z,hz,hyz⟩ := hmem
        have hne : key z ≠ k := by
          intro he
          apply hout
          rw [hx, ← he]
          exact List.mem_map_of_mem hz
        have hnil := List.filter_eq_nil_iff.mp (hother z hne) y hyz
        exact hnil hp
      simp [hx, hrest]
    · rw [hother x hx, ih hn']
      simp [hx]

end Assembly
end Iotistica.CellRun
