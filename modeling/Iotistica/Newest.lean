import Iotistica.OrderedMap
import Mathlib.Data.List.Basic
import Mathlib.Data.List.Induction
import Mathlib.Order.Lattice
import Mathlib.Logic.Function.Basic

/-!
# Keeping the newest

A slot keeps the newest of what it is offered, and of equally new items the
first or the last. A map that does so under each key holds what its slots
would, each offered the items of its key in turn.
-/

set_option autoImplicit false

namespace Iotistica.Newest

variable {α κ τ : Type*} [LinearOrder τ] (time : α → τ)

def keepLast (old : Option α) (x : α) : Option α :=
  match old with
  | none => some x
  | some o => if time o ≤ time x then some x else some o

def keepFirst (old : Option α) (x : α) : Option α :=
  match old with
  | none => some x
  | some o => if time o < time x then some x else some o

def lastNewest (xs : List α) : Option α := xs.foldl (keepLast time) none

def firstNewest (xs : List α) : Option α := xs.foldl (keepFirst time) none

/-- A slot whose item is replaced where the test says so. -/
def keep (better : α → α → Bool) (old : Option α) (x : α) : Option α :=
  match old with
  | none => some x
  | some o => if better o x then some x else some o

theorem keepLast_eq : keepLast time = keep (fun o x => decide (time o ≤ time x)) := by
  funext old x
  cases old <;> simp [keepLast, keep]

theorem keepFirst_eq : keepFirst time = keep (fun o x => decide (time o < time x)) := by
  funext old x
  cases old <;> simp [keepFirst, keep]

theorem mem_of_foldl_keep {better : α → α → Bool} {old : Option α} {xs : List α} {r : α}
    (h : xs.foldl (keep better) old = some r) : old = some r ∨ r ∈ xs := by
  induction xs using List.reverseRecOn generalizing r with
  | nil => exact Or.inl h
  | append_singleton xs x ih =>
    rw [List.foldl_concat] at h
    unfold keep at h
    split at h
    · rw [← Option.some.inj h]
      exact Or.inr (by simp)
    · rename_i o ho
      split at h
      · rw [← Option.some.inj h]
        exact Or.inr (by simp)
      · rw [Option.some.inj h] at ho
        exact (ih ho).imp id (List.mem_append_left _)

theorem mem_of_foldl_keepLast {old : Option α} {xs : List α} {r : α}
    (h : xs.foldl (keepLast time) old = some r) : old = some r ∨ r ∈ xs :=
  mem_of_foldl_keep (by rwa [keepLast_eq] at h)

theorem mem_of_foldl_keepFirst {old : Option α} {xs : List α} {r : α}
    (h : xs.foldl (keepFirst time) old = some r) : old = some r ∨ r ∈ xs :=
  mem_of_foldl_keep (by rwa [keepFirst_eq] at h)

theorem foldl_keepLast_newest (old : Option α) (xs : List α) {x : α} (h : old = some x ∨ x ∈ xs) :
    ∃ r, xs.foldl (keepLast time) old = some r ∧ time x ≤ time r := by
  induction xs using List.reverseRecOn with
  | nil =>
    rcases h with h | h
    · exact ⟨x,h,le_rfl⟩
    · cases h
  | append_singleton xs y ih =>
    rw [List.foldl_concat]
    have hx : (old = some x ∨ x ∈ xs) ∨ x = y := by
      rcases h with h | h
      · exact Or.inl (Or.inl h)
      · rcases List.mem_append.mp h with h | h
        · exact Or.inl (Or.inr h)
        · exact Or.inr (List.mem_singleton.mp h)
    cases hr : xs.foldl (keepLast time) old with
    | none =>
      rcases hx with hx | rfl
      · obtain ⟨r,hr',-⟩ := ih hx
        rw [hr] at hr'
        cases hr'
      · exact ⟨x,rfl,le_rfl⟩
    | some o =>
      unfold keepLast
      simp only
      rcases hx with hx | rfl
      · obtain ⟨r,hr',hle⟩ := ih hx
        rw [hr] at hr'
        cases hr'
        split
        · rename_i hoy
          exact ⟨y,rfl,le_trans hle hoy⟩
        · exact ⟨o,rfl,hle⟩
      · split
        · exact ⟨x,rfl,le_rfl⟩
        · rename_i hoy
          exact ⟨o,rfl,le_of_lt (not_le.mp hoy)⟩

def offer (old new : Option α) : Option α := new.elim old (keepLast time old)

theorem foldl_keepLast_eq (old : Option α) (xs : List α) :
    xs.foldl (keepLast time) old = offer time old (lastNewest time xs) := by
  induction xs using List.reverseRecOn with
  | nil => rfl
  | append_singleton xs x ih =>
    rw [List.foldl_concat, lastNewest, List.foldl_concat, ih]
    cases hn : lastNewest time xs with
    | none =>
      rw [lastNewest] at hn
      rw [hn]
      rfl
    | some n =>
      rw [lastNewest] at hn
      rw [hn]
      cases old with
      | none => by_cases h : time n ≤ time x <;> simp [offer, keepLast, h]
      | some o =>
        by_cases h : time n ≤ time x
        · by_cases ho : time o ≤ time n
          · simp [offer, keepLast, h, ho, le_trans ho h]
          · simp [offer, keepLast, h, ho]
        · by_cases ho : time o ≤ time n
          · simp [offer, keepLast, h, ho]
          · have hox : ¬time o ≤ time x := not_le.mpr (lt_trans (not_le.mp h) (not_le.mp ho))
            simp [offer, keepLast, h, ho, hox]

theorem foldl_keepLast_mem_or_newer {old : Option α} {xs : List α} {x r : α} (hx : x ∈ xs)
    (h : xs.foldl (keepLast time) old = some r) : r ∈ xs ∨ time x < time r := by
  obtain ⟨n,hn,hxn⟩ := foldl_keepLast_newest time none xs (Or.inr hx)
  have hmem : n ∈ xs := by
    rcases mem_of_foldl_keepLast time hn with hnone | hm
    · cases hnone
    · exact hm
  have hlast : lastNewest time xs = some n := hn
  rw [foldl_keepLast_eq, hlast] at h
  cases old with
  | none =>
    rw [offer, Option.elim_some, keepLast, Option.some.injEq] at h
    exact Or.inl (h ▸ hmem)
  | some o =>
    rw [offer, Option.elim_some, keepLast] at h
    split at h
    · rw [Option.some.injEq] at h
      exact Or.inl (h ▸ hmem)
    · rename_i hlt
      rw [Option.some.injEq] at h
      exact Or.inr (h ▸ lt_of_le_of_lt hxn (not_le.mp hlt))

theorem offer_none (new : Option α) : offer time none new = new := by
  cases new <;> rfl

theorem offer_offer_self (old : Option α) (n : α) :
    offer time (offer time old (some n)) (some n) = offer time old (some n) := by
  cases old with
  | none => simp [offer, keepLast]
  | some o => by_cases h : time o ≤ time n <;> simp [offer, keepLast, h]

theorem offer_offer_older (old : Option α) {n b : α} (h : time b < time n) :
    offer time (offer time old (some n)) (some b) = offer time old (some n) := by
  cases old with
  | none => simp [offer, keepLast, not_le.mpr h]
  | some o =>
    by_cases ho : time o ≤ time n
    · simp [offer, keepLast, ho, not_le.mpr h]
    · have hob : ¬time o ≤ time b := not_le.mpr (lt_trans h (not_le.mp ho))
      simp [offer, keepLast, ho, hob]

theorem offer_eq_self {slot : Option α} {b : α} :
    offer time slot (some b) = slot ↔ ∃ n, slot = some n ∧ (time b < time n ∨ b = n) := by
  cases slot with
  | none => simp [offer, keepLast]
  | some n =>
    by_cases h : time n ≤ time b
    · simp [offer, keepLast, h, not_lt.mpr h]
    · simp [offer, keepLast, h, not_le.mp h]

theorem foldl_keepLast_map {ρ : Type*} (rowTime : ρ → τ) (row : α → ρ) (old : Option α)
    (xs : List α) :
    (xs.map row).foldl (keepLast rowTime) (old.map row) =
      (xs.foldl (keepLast (fun x => rowTime (row x))) old).map row := by
  induction xs generalizing old with
  | nil => rfl
  | cons x xs ih =>
    rw [List.map_cons, List.foldl_cons, List.foldl_cons, ← ih]
    congr 1
    cases old with
    | none => rfl
    | some o => by_cases h : rowTime (row o) ≤ rowTime (row x) <;> simp [keepLast, h]

theorem lastNewest_map {ρ : Type*} (rowTime : ρ → τ) (row : α → ρ) (xs : List α) :
    lastNewest rowTime (xs.map row) = (lastNewest (fun x => rowTime (row x)) xs).map row :=
  foldl_keepLast_map rowTime row none xs

theorem lastNewest_top {xs : List α} {top : τ} (hle : ∀ x ∈ xs, time x ≤ top)
    (hne : xs.filter (fun x => time x = top) ≠ []) :
    lastNewest time xs = (xs.filter (fun x => time x = top)).getLast? := by
  induction xs using List.reverseRecOn with
  | nil => exact absurd rfl hne
  | append_singleton xs x ih =>
    have hle' : ∀ y ∈ xs, time y ≤ top := fun y hy => hle y (List.mem_append_left _ hy)
    rw [lastNewest, List.foldl_concat, ← lastNewest, List.filter_append]
    by_cases hx : time x = top
    · have hlast : (xs.filter (fun x => time x = top)++[x].filter (fun x => time x = top)).getLast? =
          some x := by simp [hx]
      rw [hlast]
      cases hn : lastNewest time xs with
      | none => rfl
      | some n =>
        have hn' : time n ≤ time x := by
          rcases mem_of_foldl_keepLast time hn with h | h
          · cases h
          · exact hx ▸ hle' n h
        simp [keepLast, hn']
    · have hne' : xs.filter (fun x => time x = top) ≠ [] := by
        simpa [List.filter_append, hx] using hne
      have ih' := ih hle' hne'
      have hsame : xs.filter (fun x => time x = top)++[x].filter (fun x => time x = top) =
          xs.filter (fun x => time x = top) := by simp [hx]
      rw [hsame, ← ih']
      cases hn : lastNewest time xs with
      | none =>
        rw [hn] at ih'
        exact absurd (List.getLast?_eq_none_iff.mp ih'.symm) hne'
      | some n =>
        have hn' : time n = top := by
          rw [hn] at ih'
          have hmem := List.mem_of_getLast? ih'.symm
          simpa using (List.mem_filter.mp hmem).2
        have hlt : time x < top := lt_of_le_of_ne (hle x (by simp)) hx
        have hnx : ¬time n ≤ time x := by
          rw [hn']
          exact not_le.mpr hlt
        simp [keepLast, hnx]

theorem exists_lastNewest {xs : List α} {x : α} (hx : x ∈ xs) :
    ∃ n, lastNewest time xs = some n ∧ time x ≤ time n :=
  foldl_keepLast_newest time none xs (Or.inr hx)

theorem lastNewest_mem {xs : List α} {n : α} (h : lastNewest time xs = some n) : n ∈ xs := by
  rcases mem_of_foldl_keepLast time h with hn | hm
  · cases hn
  · exact hm

theorem firstNewest_mem {xs : List α} {n : α} (h : firstNewest time xs = some n) : n ∈ xs := by
  rcases mem_of_foldl_keepFirst time h with hn | hm
  · cases hn
  · exact hm

theorem exists_firstNewest {xs : List α} {x : α} (hx : x ∈ xs) :
    ∃ n, firstNewest time xs = some n ∧ time x ≤ time n := by
  induction xs using List.reverseRecOn with
  | nil => cases hx
  | append_singleton xs y ih =>
    rw [firstNewest, List.foldl_concat, ← firstNewest]
    have hxy : x ∈ xs ∨ x = y := by simpa using hx
    cases hn : firstNewest time xs with
    | none =>
      rcases hxy with hx | rfl
      · obtain ⟨n,hn',-⟩ := ih hx
        rw [hn] at hn'
        cases hn'
      · exact ⟨x,rfl,le_rfl⟩
    | some o =>
      have hxo : time x ≤ time o ∨ x = y := by
        rcases hxy with hx | hx
        · obtain ⟨n,hn',hle⟩ := ih hx
          rw [hn] at hn'
          cases hn'
          exact Or.inl hle
        · exact Or.inr hx
      by_cases hoy : time o < time y
      · refine ⟨y,if_pos hoy,?_⟩
        rcases hxo with hle | rfl
        · exact le_of_lt (lt_of_le_of_lt hle hoy)
        · exact le_rfl
      · refine ⟨o,if_neg hoy,?_⟩
        rcases hxo with hle | rfl
        · exact hle
        · exact not_lt.mp hoy

section
variable [DecidableEq κ] (key : α → κ)

/-- The entry of a new key is made, that of another one replaced where the
test says so. -/
def collect (better : α → α → Bool) (m : OrderedMap κ α) (xs : List α) : OrderedMap κ α :=
  xs.foldl (fun m x =>
    match m.get? (key x) with
    | none => m.set (key x) x
    | some existing => if better existing x then m.set (key x) x else m) m

theorem get?_collect (better : α → α → Bool) (m : OrderedMap κ α) (xs : List α) (k : κ) :
    (collect key better m xs).get? k =
      (xs.filter (fun x => key x = k)).foldl (keep better) (m.get? k) := by
  induction xs generalizing m with
  | nil => rfl
  | cons x xs ih =>
    unfold collect at ih ⊢
    rw [List.foldl_cons, ih]
    by_cases hk : key x = k
    · subst hk
      simp only [decide_true, List.filter_cons_of_pos, List.foldl_cons]
      congr 1
      cases hm : m.get? (key x) with
      | none => simp [keep, OrderedMap.get?_set]
      | some o => cases h : better o x <;> simp [keep, h, hm, OrderedMap.get?_set]
    · rw [List.filter_cons_of_neg (by simpa using hk)]
      congr 1
      split
      · rw [OrderedMap.get?_set, if_neg (Ne.symm hk)]
      · split
        · rw [OrderedMap.get?_set, if_neg (Ne.symm hk)]
        · rfl

theorem get?_collect_last (m : OrderedMap κ α) (xs : List α) (k : κ) :
    (collect key (fun o x => decide (time o ≤ time x)) m xs).get? k =
      (xs.filter (fun x => key x = k)).foldl (keepLast time) (m.get? k) := by
  rw [get?_collect, keepLast_eq]

theorem get?_collect_first (m : OrderedMap κ α) (xs : List α) (k : κ) :
    (collect key (fun o x => decide (time o < time x)) m xs).get? k =
      (xs.filter (fun x => key x = k)).foldl (keepFirst time) (m.get? k) := by
  rw [get?_collect, keepFirst_eq]

theorem collect_append (better : α → α → Bool) (m : OrderedMap κ α) (xs ys : List α) :
    collect key better m (xs++ys) = collect key better (collect key better m xs) ys :=
  List.foldl_append

theorem collect_keyed (better : α → α → Bool) {m : OrderedMap κ α}
    (hm : ∀ e ∈ m.entries, key e.2 = e.1) (xs : List α) :
    ∀ e ∈ (collect key better m xs).entries, key e.2 = e.1 := by
  induction xs generalizing m with
  | nil => exact hm
  | cons x xs ih =>
    unfold collect at ih ⊢
    rw [List.foldl_cons]
    have hset : ∀ e ∈ (m.set (key x) x).entries, key e.2 = e.1 := by
      intro e he
      rcases OrderedMap.of_mem_entries_set m he with h | h
      · exact hm e h
      · rw [h]
    apply ih
    split
    · exact hset
    · split
      · exact hset
      · exact hm

theorem mem_collect (better : α → α → Bool) {m : OrderedMap κ α} {xs : List α} {e : κ × α}
    (h : e ∈ (collect key better m xs).entries) : e ∈ m.entries ∨ e.2 ∈ xs := by
  induction xs generalizing m with
  | nil => exact Or.inl h
  | cons x xs ih =>
    unfold collect at ih h
    rw [List.foldl_cons] at h
    have hset : e ∈ (m.set (key x) x).entries → e ∈ m.entries ∨ e.2 ∈ x::xs := by
      intro he
      rcases OrderedMap.of_mem_entries_set m he with he | he
      · exact Or.inl he
      · rw [he]
        exact Or.inr List.mem_cons_self
    rcases ih h with he | he
    · split at he
      · exact hset he
      · split at he
        · exact hset he
        · exact Or.inl he
    · exact Or.inr (List.mem_cons_of_mem _ he)

theorem filter_values {m : OrderedMap κ α} (hm : ∀ e ∈ m.entries, key e.2 = e.1) (k : κ) :
    (m.entries.map Prod.snd).filter (fun x => key x = k) = (m.get? k).toList := by
  have hsame : (m.entries.map Prod.snd).filter (fun x => key x = k) =
      (m.entries.filter (fun e => e.1 = k)).map Prod.snd := by
    rw [List.filter_map]
    congr 1
    apply List.filter_congr
    intro e he
    simp [hm e he]
  rw [hsame]
  cases hg : m.get? k with
  | none =>
    have hnone : m.entries.filter (fun e => e.1 = k) = [] := by
      rw [List.filter_eq_nil_iff]
      intro e he hk
      have hk' : e.1 = k := by simpa using hk
      have hget := OrderedMap.get?_of_mem he
      rw [hk', hg] at hget
      cases hget
    rw [hnone]
    rfl
  | some x =>
    have hx := (OrderedMap.get?_eq_some_iff m k x).mp hg
    have hnodup : (m.entries.filter (fun e => e.1 = k)).Nodup :=
      (List.Nodup.of_map _ m.nodup).filter _
    have hall : ∀ e ∈ m.entries.filter (fun e => e.1 = k), e = (k,x) := by
      intro e he
      have hk : e.1 = k := by simpa using (List.mem_filter.mp he).2
      have hget := OrderedMap.get?_of_mem (List.mem_filter.mp he).1
      rw [hk, hg] at hget
      exact Prod.ext hk (Option.some.inj hget).symm
    have hone : m.entries.filter (fun e => e.1 = k) = [(k,x)] := by
      apply List.perm_singleton.mp
      rw [List.perm_ext_iff_of_nodup hnodup (List.nodup_singleton _)]
      intro e
      rw [List.mem_singleton]
      exact ⟨hall e,fun he => he ▸ List.mem_filter.mpr ⟨hx,by simp⟩⟩
    rw [hone]
    rfl

end

section
variable [DecidableEq κ] {ρ : Type*} (rowTime : ρ → τ)

/-- `ON CONFLICT … DO UPDATE … WHERE EXCLUDED.time >= time`. -/
def upsertNewest (table : κ → Option ρ) (rows : List (κ × ρ)) : κ → Option ρ :=
  rows.foldl (fun t row => Function.update t row.1 (keepLast rowTime (t row.1) row.2)) table

theorem upsertNewest_apply (table : κ → Option ρ) (rows : List (κ × ρ)) (k : κ) :
    upsertNewest rowTime table rows k =
      ((rows.filter (fun row => row.1 = k)).map Prod.snd).foldl (keepLast rowTime) (table k) := by
  induction rows generalizing table with
  | nil => rfl
  | cons row rows ih =>
    unfold upsertNewest at ih ⊢
    rw [List.foldl_cons, ih]
    by_cases hk : row.1 = k
    · subst hk
      simp
    · rw [List.filter_cons_of_neg (by simpa using hk), Function.update_of_ne (Ne.symm hk)]

end

end Iotistica.Newest
