import Mathlib.Data.List.Sort
import Mathlib.Data.List.Nodup

/-!
# Tables with a generated primary key

The structure carries the primary key constraint and the high-water mark of
an autoincrement sequence, so that a deleted key is never issued again.
Insertion, deletion and update are the only ways to build a table; each
discharges the two fields once, and every statement issued against the
table is one of the three.
-/

set_option autoImplicit false

namespace Iotistica.KeyedTable

structure Table (α : Type*) (key : α → ℕ) where
  rows : List α
  next : ℕ
  nodup : (rows.map key).Nodup
  below : ∀ r ∈ rows, key r < next

namespace Table
variable {α : Type*} {key : α → ℕ}

def empty : Table α key := ⟨[],1,by simp,by simp⟩

def insert (t : Table α key) (mk : ℕ → α) (hk : ∀ n, key (mk n) = n) : Table α key where
  rows := t.rows ++ [mk t.next]
  next := t.next+1
  nodup := by
    rw [List.map_append, List.nodup_append]
    refine ⟨t.nodup,by simp,?_⟩
    intro a ha b hb
    obtain ⟨r,hr,rfl⟩ := List.mem_map.mp ha
    obtain rfl : b = t.next := by simpa [hk] using hb
    exact (t.below r hr).ne
  below := by
    intro r hr
    rcases List.mem_append.mp hr with h | h
    · exact (t.below r h).trans (Nat.lt_succ_self _)
    · obtain rfl := List.mem_singleton.mp h
      simp [hk]

def delete (t : Table α key) (p : α → Bool) : Table α key where
  rows := t.rows.filter (fun r => !p r)
  next := t.next
  nodup := t.nodup.sublist (List.filter_sublist.map key)
  below := fun r hr => t.below r (List.mem_of_mem_filter hr)

def update (t : Table α key) (p : α → Bool) (f : α → α) (hf : ∀ r, key (f r) = key r) :
    Table α key where
  rows := t.rows.map (fun r => if p r then f r else r)
  next := t.next
  nodup := by
    have h : t.rows.map (key ∘ fun r => if p r then f r else r) = t.rows.map key := by
      apply List.map_congr_left
      intro r _
      simp only [Function.comp]
      split
      · exact hf r
      · rfl
    rw [List.map_map, h]
    exact t.nodup
  below := by
    intro r hr
    obtain ⟨a,ha,rfl⟩ := List.mem_map.mp hr
    split
    · rw [hf]
      exact t.below a ha
    · exact t.below a ha

def changes (t : Table α key) (p : α → Bool) : ℕ := t.rows.countP p

def select (t : Table α key) (p : α → Bool) : List α := t.rows.filter p

def selectOldest (t : Table α key) (stamp : α → ℤ) (p : α → Bool) (limit : ℕ) : List α :=
  ((t.select p).insertionSort (fun a b => stamp a ≤ stamp b)).take limit

theorem ext_rows {s t : Table α key} (hr : s.rows = t.rows) (hn : s.next = t.next) : s = t := by
  cases s
  cases t
  simp_all

theorem key_unique (t : Table α key) {a b : α} (ha : a ∈ t.rows) (hb : b ∈ t.rows)
    (h : key a = key b) : a = b :=
  List.inj_on_of_nodup_map t.nodup ha hb h

theorem find?_key (t : Table α key) {a : α} (ha : a ∈ t.rows) :
    t.rows.find? (fun r => key r = key a) = some a := by
  cases hf : t.rows.find? (fun r => key r = key a) with
  | none => exact absurd (List.find?_eq_none.mp hf a ha) (by simp)
  | some b =>
    have hkey : key b = key a := by simpa using List.find?_some hf
    rw [t.key_unique (List.mem_of_find?_eq_some hf) ha hkey]

@[simp] theorem length_insert (t : Table α key) (mk : ℕ → α) (hk : ∀ n, key (mk n) = n) :
    (t.insert mk hk).rows.length = t.rows.length+1 := by
  simp [insert]

@[simp] theorem length_update (t : Table α key) (p : α → Bool) (f : α → α)
    (hf : ∀ r, key (f r) = key r) : (t.update p f hf).rows.length = t.rows.length := by
  simp [update]

theorem length_delete (t : Table α key) (p : α → Bool) :
    (t.delete p).rows.length+t.changes p = t.rows.length := by
  have h := t.rows.length_eq_countP_add_countP p
  simp only [delete, changes, ← List.countP_eq_length_filter] at *
  have hc : (t.rows.countP fun r => !p r) = t.rows.countP (fun r => decide ¬p r = true) :=
    List.countP_congr (by simp)
  omega

@[simp] theorem mem_insert (t : Table α key) (mk : ℕ → α) (hk : ∀ n, key (mk n) = n) (r : α) :
    r ∈ (t.insert mk hk).rows ↔ r ∈ t.rows ∨ r = mk t.next := by
  simp [insert]

@[simp] theorem mem_delete (t : Table α key) (p : α → Bool) (r : α) :
    r ∈ (t.delete p).rows ↔ r ∈ t.rows ∧ p r = false := by
  simp [delete]

@[simp] theorem mem_update (t : Table α key) (p : α → Bool) (f : α → α)
    (hf : ∀ r, key (f r) = key r) (r : α) :
    r ∈ (t.update p f hf).rows ↔ ∃ a ∈ t.rows, (if p a then f a else a) = r := by
  simp [update]

theorem mem_update_of_key (t : Table α key) {p : α → Bool} {f : α → α}
    {hf : ∀ r, key (f r) = key r} {a r : α} (ha : a ∈ t.rows) (hr : r ∈ (t.update p f hf).rows)
    (h : key r = key a) : r = if p a then f a else a := by
  obtain ⟨b,hb,rfl⟩ := (mem_update t p f hf r).mp hr
  have hkey : key (if p b then f b else b) = key b := by
    split
    · exact hf b
    · rfl
  rw [t.key_unique hb ha (hkey.symm.trans h)]

theorem mem_update_key (t : Table α key) {a : α} (ha : a ∈ t.rows) (f : α → α)
    (hf : ∀ r, key (f r) = key r) (r : α) :
    r ∈ (t.update (fun r => key r = key a) f hf).rows ↔
      r = f a ∨ (r ∈ t.rows ∧ key r ≠ key a) := by
  rw [mem_update]
  constructor
  · rintro ⟨b,hb,rfl⟩
    split
    · next hid =>
      obtain rfl := t.key_unique hb ha (of_decide_eq_true hid)
      exact Or.inl rfl
    · next hid => exact Or.inr ⟨hb,fun he => hid (decide_eq_true he)⟩
  · rintro (rfl | ⟨hr,hid⟩)
    · exact ⟨a,ha,if_pos (decide_eq_true rfl)⟩
    · exact ⟨r,hr,if_neg (fun he => hid (of_decide_eq_true he))⟩

theorem countP_insert (t : Table α key) (mk : ℕ → α) (hk : ∀ n, key (mk n) = n) (p : α → Bool) :
    (t.insert mk hk).rows.countP p = t.rows.countP p+(if p (mk t.next) then 1 else 0) := by
  show (t.rows++[mk t.next]).countP p = _
  rw [List.countP_append, List.countP_singleton]

theorem countP_update_key (t : Table α key) {a : α} (ha : a ∈ t.rows) (f : α → α)
    (hf : ∀ r, key (f r) = key r) (p : α → Bool) :
    (t.update (fun r => key r = key a) f hf).rows.countP p+(if p a then 1 else 0) =
      t.rows.countP p+(if p (f a) then 1 else 0) := by
  have hlist : ∀ rows : List α, (rows.map key).Nodup → a ∈ rows →
      (rows.map (fun r => if key r = key a then f r else r)).countP p+(if p a then 1 else 0) =
        rows.countP p+(if p (f a) then 1 else 0) := by
    intro rows hn hmem
    induction rows with
    | nil => cases hmem
    | cons r rows ih =>
      obtain ⟨hout,hn'⟩ := List.nodup_cons.mp hn
      rw [List.map_cons, List.countP_cons, List.countP_cons]
      rcases List.mem_cons.mp hmem with rfl | hmem
      · have hrest : rows.map (fun r => if key r = key a then f r else r) = rows := by
          refine (List.map_congr_left (fun r hr => if_neg (fun he => ?_))).trans (List.map_id rows)
          exact hout (List.mem_map.mpr ⟨r,hr,he⟩)
        rw [hrest, if_pos rfl]
        omega
      · have hne : ¬key r = key a := fun he => hout (he ▸ List.mem_map_of_mem hmem)
        have hrec := ih hn' hmem
        rw [if_neg hne]
        omega
  have hrows := hlist t.rows t.nodup ha
  simpa only [update, decide_eq_true_eq] using hrows

@[simp] theorem mem_select (t : Table α key) (p : α → Bool) (r : α) :
    r ∈ t.select p ↔ r ∈ t.rows ∧ p r = true := by
  simp [select]

theorem mem_selectOldest {t : Table α key} {stamp : α → ℤ} {p : α → Bool} {limit : ℕ} {r : α}
    (h : r ∈ t.selectOldest stamp p limit) : r ∈ t.rows ∧ p r = true := by
  have hm := List.mem_of_mem_take h
  rw [List.mem_insertionSort] at hm
  exact (mem_select t p r).mp hm

theorem nodup_sorted_select (t : Table α key) (stamp : α → ℤ) (p : α → Bool) :
    (((t.select p).insertionSort (fun a b => stamp a ≤ stamp b)).map key).Nodup := by
  have hp := List.perm_insertionSort (fun a b => stamp a ≤ stamp b) (t.select p)
  rw [(hp.map key).nodup_iff]
  exact t.nodup.sublist (List.filter_sublist.map key)

def selectOrdered (t : Table α key) (stamp : α → ℤ) (p : α → Bool) : List α :=
  (t.select p).insertionSort (fun a b => stamp a ≤ stamp b)

@[simp] theorem mem_selectOrdered (t : Table α key) (stamp : α → ℤ) (p : α → Bool) (r : α) :
    r ∈ t.selectOrdered stamp p ↔ r ∈ t.rows ∧ p r = true := by
  rw [selectOrdered, List.mem_insertionSort, mem_select]

theorem nodup_selectOrdered (t : Table α key) (stamp : α → ℤ) (p : α → Bool) :
    ((t.selectOrdered stamp p).map key).Nodup :=
  nodup_sorted_select t stamp p

theorem pairwise_selectOrdered (t : Table α key) (stamp : α → ℤ) (p : α → Bool) :
    (t.selectOrdered stamp p).Pairwise (fun a b => stamp a ≤ stamp b) := by
  have : Std.Total (fun a b : α => stamp a ≤ stamp b) := ⟨fun a b => le_total _ _⟩
  have : IsTrans α (fun a b => stamp a ≤ stamp b) := ⟨fun _ _ _ => le_trans⟩
  exact List.pairwise_insertionSort _ _

theorem orderedInsert_concat (stamp : α → ℤ) {a b : α} (l : List α) (h : stamp a ≤ stamp b) :
    (l++[b]).orderedInsert (fun a b => stamp a ≤ stamp b) a
      = l.orderedInsert (fun a b => stamp a ≤ stamp b) a++[b] := by
  induction l with
  | nil => simp [h]
  | cons c l ih =>
    rw [List.cons_append, List.orderedInsert_cons, List.orderedInsert_cons, ih]
    split <;> rfl

theorem insertionSort_concat (stamp : α → ℤ) {b : α} (l : List α)
    (h : ∀ a ∈ l, stamp a ≤ stamp b) :
    (l++[b]).insertionSort (fun a b => stamp a ≤ stamp b)
      = l.insertionSort (fun a b => stamp a ≤ stamp b)++[b] := by
  induction l with
  | nil => rfl
  | cons a l ih =>
    rw [List.cons_append, List.insertionSort_cons, ih (fun c hc => h c (by simp [hc])),
      orderedInsert_concat stamp _ (h a (by simp)), ← List.insertionSort_cons]

theorem filter_orderedInsert (stamp : α → ℤ) (p : α → Bool) (a : α) (l : List α)
    (hl : l.Pairwise (fun a b => stamp a ≤ stamp b)) :
    (l.orderedInsert (fun a b => stamp a ≤ stamp b) a).filter p
      = if p a then (l.filter p).orderedInsert (fun a b => stamp a ≤ stamp b) a
        else l.filter p := by
  induction l with
  | nil => cases hp : p a <;> simp [hp]
  | cons b l ih =>
    have hb := List.pairwise_cons.mp hl
    by_cases hab : stamp a ≤ stamp b
    · have hall : ∀ c ∈ (b::l).filter p, stamp a ≤ stamp c := by
        intro c hc
        rcases List.mem_cons.mp (List.mem_of_mem_filter hc) with rfl | hc
        · exact hab
        · exact hab.trans (hb.1 c hc)
      have hfront : ((b::l).filter p).orderedInsert (fun a b => stamp a ≤ stamp b) a
          = a::(b::l).filter p := by
        cases hf : (b::l).filter p with
        | nil => rfl
        | cons c cs =>
          rw [hf] at hall
          rw [List.orderedInsert_cons, if_pos (hall c (by simp))]
      rw [hfront, List.orderedInsert_cons, if_pos hab, List.filter_cons]
    · rw [List.orderedInsert_cons, if_neg hab, List.filter_cons, ih hb.2, List.filter_cons]
      cases hpa : p a <;> cases hpb : p b <;> simp [hab]

theorem filter_insertionSort (stamp : α → ℤ) (p : α → Bool) (l : List α) :
    (l.filter p).insertionSort (fun a b => stamp a ≤ stamp b)
      = (l.insertionSort (fun a b => stamp a ≤ stamp b)).filter p := by
  have : Std.Total (fun a b : α => stamp a ≤ stamp b) := ⟨fun a b => le_total _ _⟩
  have : IsTrans α (fun a b => stamp a ≤ stamp b) := ⟨fun _ _ _ => le_trans⟩
  induction l with
  | nil => rfl
  | cons a l ih =>
    rw [List.insertionSort_cons, filter_orderedInsert stamp p a _ (List.pairwise_insertionSort _ _),
      List.filter_cons]
    split
    · rw [List.insertionSort_cons, ih]
    · exact ih

theorem selectOrdered_insert (t : Table α key) (mk : ℕ → α) (hk : ∀ n, key (mk n) = n)
    (stamp : α → ℤ) (p : α → Bool) (hp : p (mk t.next) = true)
    (h : ∀ r ∈ t.rows, p r = true → stamp r ≤ stamp (mk t.next)) :
    (t.insert mk hk).selectOrdered stamp p = t.selectOrdered stamp p++[mk t.next] := by
  have hs : (t.insert mk hk).select p = t.select p++[mk t.next] := by
    simp [select, insert, hp]
  unfold selectOrdered
  rw [hs]
  apply insertionSort_concat
  intro r hr
  have hr' := (mem_select t p r).mp hr
  exact h r hr'.1 hr'.2

theorem selectOrdered_delete (t : Table α key) (gone : α → Bool) (stamp : α → ℤ)
    (p : α → Bool) :
    (t.delete gone).selectOrdered stamp p
      = (t.selectOrdered stamp p).filter (fun r => !gone r) := by
  have hs : (t.delete gone).select p = (t.select p).filter (fun r => !gone r) := by
    simp only [select, delete, List.filter_filter]
    apply List.filter_congr
    intro r _
    exact Bool.and_comm _ _
  unfold selectOrdered
  rw [hs, filter_insertionSort]

theorem selectOrdered_update (t : Table α key) (q : α → Bool) (f : α → α)
    (hf : ∀ r, key (f r) = key r) (stamp : α → ℤ) (p : α → Bool)
    (hstamp : ∀ r, stamp (f r) = stamp r) (hp : ∀ r, p (f r) = p r) :
    (t.update q f hf).selectOrdered stamp p
      = (t.selectOrdered stamp p).map (fun r => if q r then f r else r) := by
  have hs : (t.update q f hf).select p
      = (t.select p).map (fun r => if q r then f r else r) := by
    simp only [select, update, List.filter_map]
    congr 1
    apply List.filter_congr
    intro r _
    simp only [Function.comp]
    split
    · exact hp r
    · rfl
  unfold selectOrdered
  rw [hs]
  symm
  apply List.map_insertionSort
  intro a _ b _
  have hsame : ∀ r, stamp (if q r then f r else r) = stamp r := by
    intro r
    split
    · exact hstamp r
    · rfl
  rw [hsame, hsame]

end Table
end Iotistica.KeyedTable
