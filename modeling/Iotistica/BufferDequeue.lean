import Iotistica.BufferLocking
import Iotistica.BufferEvictions

/-!
# What a dequeue takes

The selection, the guarded update and the selection by the lock id agree on
one list of rows: the first ready ones. The scope is read as it is documented;
the filter of the query also leaves out rows of the exact endpoint when a
prefix is given beside it, and folds case and wildcards in the prefix.
-/

set_option autoImplicit false

namespace Iotistica.BufferDequeue
open Iotistica.KeyedTable Iotistica.JsText Iotistica.BufferStore Iotistica.BufferLocking
open Iotistica.BufferEvictions

def due (now lockCutoff : ℤ) (maxRetries : Option ℕ) (r : MessageBufferRecord) : Bool :=
  claimable lockCutoff r &&
  !after r.nextRetryAt now &&
  (match maxRetries with
    | none => true
    | some m => decide (r.retryCount < m)) &&
  decide (now < r.expiresAt)

theorem ready_eq (now lockCutoff : ℤ) (maxRetries : Option ℕ) (scope : Scope)
    (r : MessageBufferRecord) :
    ready now lockCutoff maxRetries scope r =
      (due now lockCutoff maxRetries r && inScope scope r.endpointName) := rfl

/-- The scope as `dequeueReady` documents it: the exact name takes precedence
over the prefix that names must not start with. -/
def documentedScope (scope : Scope) (endpointName : String) : Bool :=
  match scope.exact with
  | some e => endpointName == e
  | none =>
    match scope.excludePrefix with
    | none => true
    | some pre => pre == "" || !startsWith endpointName pre

def documentedReady (now lockCutoff : ℤ) (maxRetries : Option ℕ) (scope : Scope)
    (r : MessageBufferRecord) : Bool :=
  due now lockCutoff maxRetries r && documentedScope scope r.endpointName

/-- The first ready rows in the order of their creation. -/
def firstReady (s : Store) (limit now lockTimeoutMs : ℤ) (maxRetries : Option ℕ)
    (scope : Scope) : List MessageBufferRecord :=
  s.table.selectOldest MessageBufferRecord.createdAt
    (documentedReady now (now-lockTimeoutMs) maxRetries scope) limit.toNat

/-- `rows` are returned with the lock on them, and the store differs by these locks. -/
structure Takes (s : Store) (now : ℤ) (lockId : String) (rows : List MessageBufferRecord)
    (result : Store × List MessageBufferRecord) : Prop where
  returned : result.2 = rows.map (lockRow lockId now)
  locked : result.1.table.rows =
    s.table.rows.map (fun r => if r ∈ rows then lockRow lockId now r else r)
  next : result.1.table.next = s.table.next
  metadata : result.1.metadata = s.metadata

/-- The rows that the query of the source selects. -/
def candidates (s : Store) (limit now lockTimeoutMs : ℤ) (maxRetries : Option ℕ)
    (scope : Scope) : List MessageBufferRecord :=
  s.table.selectOldest MessageBufferRecord.createdAt
    (ready now (now-lockTimeoutMs) maxRetries scope) limit.toNat

theorem takes_none {s : Store} {now : ℤ} {lockId : String} : Takes s now lockId [] (s,[]) where
  returned := rfl
  locked := by simp
  next := rfl
  metadata := rfl

theorem target_iff {s : Store} {limit now lockTimeoutMs : ℤ} {maxRetries : Option ℕ}
    {scope : Scope} {r : MessageBufferRecord} (hr : r ∈ s.table.rows) :
    (idIn ((candidates s limit now lockTimeoutMs maxRetries scope).map MessageBufferRecord.id) r &&
      claimable (now-lockTimeoutMs) r) = true ↔
      r ∈ candidates s limit now lockTimeoutMs maxRetries scope := by
  rw [Bool.and_eq_true]
  constructor
  · rintro ⟨hid,-⟩
    obtain ⟨a,ha,heq⟩ := idIn_idsOf.mp hid
    obtain rfl := s.table.key_unique (Table.mem_selectOldest ha).1 hr heq
    exact ha
  · intro hmem
    exact ⟨idIn_idsOf.mpr ⟨r,hmem,rfl⟩,ready_claimable (Table.mem_selectOldest hmem).2⟩

theorem filter_mem_take {xs : List MessageBufferRecord} (h : xs.Nodup) (n : ℕ) :
    xs.filter (· ∈ xs.take n) = xs.take n := by
  have hdisj : (xs.take n).Disjoint (xs.drop n) := by
    rw [← List.take_append_drop n xs] at h
    exact List.disjoint_of_nodup_append h
  conv_lhs =>
    arg 2
    rw [← List.take_append_drop n xs]
  rw [List.filter_append, List.filter_eq_self.mpr fun r hr => decide_eq_true hr,
    List.filter_eq_nil_iff.mpr fun r hr hmem => hdisj (of_decide_eq_true hmem) hr,
    List.append_nil]

theorem filter_locked {s : Store} {lockId : String} (hf : FreshLock lockId s) (now : ℤ)
    (rows : List MessageBufferRecord) :
    (s.table.rows.map (fun r => if r ∈ rows then lockRow lockId now r else r)).filter
      (lockedBy lockId) = (s.table.rows.filter (· ∈ rows)).map (lockRow lockId now) := by
  rw [List.filter_map]
  have hsel : s.table.rows.filter
      (lockedBy lockId ∘ fun r => if r ∈ rows then lockRow lockId now r else r) =
      s.table.rows.filter (· ∈ rows) := by
    apply List.filter_congr
    intro r hr
    simp only [Function.comp]
    split
    · rename_i hmem
      rw [lockedBy_lockRow, decide_eq_true hmem]
    · rename_i hmem
      have hnew := hf r hr
      rw [decide_eq_false hmem]
      simp [lockedBy, hnew]
  rw [hsel]
  apply List.map_congr_left
  intro r hr
  exact if_pos (of_decide_eq_true (List.mem_filter.mp hr).2)

theorem sorted_locked {s : Store} {lockId : String} (hf : FreshLock lockId s)
    (limit now lockTimeoutMs : ℤ) (maxRetries : Option ℕ) (scope : Scope) :
    ((s.table.rows.map (fun r =>
        if r ∈ candidates s limit now lockTimeoutMs maxRetries scope then lockRow lockId now r
        else r)).filter (lockedBy lockId)).insertionSort
          (fun a b => a.createdAt ≤ b.createdAt) =
      (candidates s limit now lockTimeoutMs maxRetries scope).map (lockRow lockId now) := by
  let p := ready now (now-lockTimeoutMs) maxRetries scope
  have hsub : s.table.rows.filter
      (· ∈ candidates s limit now lockTimeoutMs maxRetries scope) =
      (s.table.rows.filter p).filter
        (· ∈ candidates s limit now lockTimeoutMs maxRetries scope) := by
    rw [List.filter_filter]
    apply List.filter_congr
    intro r _
    by_cases hmem : r ∈ candidates s limit now lockTimeoutMs maxRetries scope
    · have hready : p r = true := (Table.mem_selectOldest hmem).2
      rw [hready, Bool.and_true]
    · rw [decide_eq_false hmem, Bool.false_and]
  have hmap : ∀ rows : List MessageBufferRecord,
      (rows.map (lockRow lockId now)).insertionSort (fun a b => a.createdAt ≤ b.createdAt) =
        (rows.insertionSort (fun a b => a.createdAt ≤ b.createdAt)).map (lockRow lockId now) := by
    intro rows
    symm
    exact List.map_insertionSort _ _ _ _ (fun a _ b _ => Iff.rfl)
  rw [filter_locked hf, hsub, hmap, Table.filter_insertionSort]
  exact congrArg (List.map (lockRow lockId now))
    (filter_mem_take (Table.nodup_sorted_select s.table MessageBufferRecord.createdAt p).of_map _)

theorem dequeueReady_takes {s : Store} {lockId : String} (hf : FreshLock lockId s)
    (limit now lockTimeoutMs : ℤ) (maxRetries : Option ℕ) (scope : Scope) :
    Takes s now lockId (candidates s limit now lockTimeoutMs maxRetries scope)
      (dequeueReady s limit now lockTimeoutMs maxRetries scope lockId) := by
  have htable : (s.table.update (fun r =>
      idIn ((candidates s limit now lockTimeoutMs maxRetries scope).map MessageBufferRecord.id) r &&
        claimable (now-lockTimeoutMs) r) (lockRow lockId now) (lockRow_id lockId now)).rows =
      s.table.rows.map (fun r =>
        if r ∈ candidates s limit now lockTimeoutMs maxRetries scope then lockRow lockId now r
        else r) := by
    apply List.map_congr_left
    intro r hr
    exact if_congr (target_iff hr) rfl rfl
  simp only [dequeueReady]
  split
  · rename_i hlimit
    have hnone : candidates s limit now lockTimeoutMs maxRetries scope = [] := by
      rw [candidates, Table.selectOldest, Int.toNat_of_nonpos hlimit, List.take_zero]
    rw [hnone]
    exact takes_none
  · split
    · rename_i hempty
      rw [show candidates s limit now lockTimeoutMs maxRetries scope = [] from
        List.isEmpty_iff.mp hempty]
      exact takes_none
    · rename_i hempty
      split
      · rename_i hchanges
        exfalso
        obtain ⟨r,hr⟩ := List.exists_mem_of_ne_nil _ (fun h => hempty (List.isEmpty_iff.mpr h))
        have hmem := (Table.mem_selectOldest hr).1
        exact absurd ((target_iff hmem).mpr hr) (List.countP_eq_zero.mp hchanges r hmem)
      · refine ⟨?_,htable,rfl,rfl⟩
        have hsorted := sorted_locked hf limit now lockTimeoutMs maxRetries scope
        rw [← htable] at hsorted
        exact hsorted

/-- A text matches what it begins with, whatever wildcards that has. -/
theorem likeChars_prefix (pre cs : List Char) : likeChars (pre++['%']) (pre++cs) = true := by
  induction pre with
  | nil => exact likeChars_percent cs
  | cons p pre ih =>
    by_cases hp : p = '%'
    · subst hp
      rw [List.cons_append, List.cons_append, likeChars, List.any_eq_true]
      refine ⟨pre++cs,?_,ih⟩
      rw [List.mem_tails]
      exact List.suffix_cons _ _
    · rw [List.cons_append, List.cons_append, likeChars, ih]
      · simp
      · exact hp

theorem like_startsWith {name pre : String} (h : startsWith name pre = true) :
    like name (pre++"%") = true := by
  obtain ⟨rest,hrest⟩ := (startsWith_iff name pre).mp h
  have hpattern : (pre++"%").toList = pre.toList++['%'] := by simp
  rw [like, hpattern, ← hrest]
  exact likeChars_prefix _ _

/-- Of the names in the documented scope the query leaves out those that match
the pattern of the prefix. -/
theorem inScope_iff (scope : Scope) (name : String) :
    inScope scope name = true ↔ documentedScope scope name = true ∧
      ∀ pattern ∈ scopeExcludePattern scope, like name pattern = false := by
  obtain ⟨exactName,excludePrefix⟩ := scope
  unfold inScope documentedScope scopeExcludePattern
  cases exactName with
  | some e =>
    cases excludePrefix with
    | none => simp
    | some pre =>
      by_cases hpre : pre = ""
      · simp [hpre]
      · simp [hpre]
  | none =>
    cases excludePrefix with
    | none => simp
    | some pre =>
      by_cases hpre : pre = ""
      · simp [hpre]
      · simp only [hpre, if_false, Bool.true_and, Bool.not_eq_true', Bool.or_eq_true, beq_iff_eq,
          false_or, Option.mem_some_iff, forall_eq']
        constructor
        · intro hlike
          refine ⟨?_,hlike⟩
          by_contra hstarts
          rw [Bool.not_eq_false] at hstarts
          rw [like_startsWith hstarts] at hlike
          cases hlike
        · exact And.right

/-- The first rows of a list are the first ones of those that pass a test
exactly when they pass it. -/
theorem take_filter_iff {α : Type*} (p : α → Bool) (xs : List α) (n : ℕ) :
    (xs.filter p).take n = xs.take n ↔ ∀ x ∈ xs.take n, p x = true := by
  constructor
  · intro h x hx
    rw [← h] at hx
    exact (List.mem_filter.mp (List.mem_of_mem_take hx)).2
  · intro h
    conv_lhs => rw [← List.take_append_drop n xs, List.filter_append, List.filter_eq_self.mpr h]
    by_cases hn : n ≤ xs.length
    · rw [List.take_append_of_le_length (by rw [List.length_take]; omega), List.take_take,
        Nat.min_self]
    · rw [List.drop_of_length_le (by omega), List.filter_nil, List.append_nil, List.take_take,
        Nat.min_self]

theorem candidates_eq (s : Store) (limit now lockTimeoutMs : ℤ) (maxRetries : Option ℕ)
    (scope : Scope) :
    candidates s limit now lockTimeoutMs maxRetries scope =
      ((s.table.selectOrdered MessageBufferRecord.createdAt
        (documentedReady now (now-lockTimeoutMs) maxRetries scope)).filter
          (fun r => inScope scope r.endpointName)).take limit.toNat := by
  have hselect : s.table.select (ready now (now-lockTimeoutMs) maxRetries scope) =
      (s.table.select (documentedReady now (now-lockTimeoutMs) maxRetries scope)).filter
        (fun r => inScope scope r.endpointName) := by
    rw [Table.select, Table.select, List.filter_filter]
    apply List.filter_congr
    intro r _
    rw [ready_eq, documentedReady]
    cases hin : inScope scope r.endpointName with
    | false => rw [Bool.and_false, Bool.false_and]
    | true => rw [((inScope_iff scope r.endpointName).mp hin).1, Bool.and_true, Bool.true_and]
  rw [candidates, Table.selectOldest, hselect, Table.filter_insertionSort]
  rfl

theorem lockRow_inj {t : Rows} {lockId : String} {now : ℤ} {xs ys : List MessageBufferRecord}
    (hxs : ∀ r ∈ xs, r ∈ t.rows) (hys : ∀ r ∈ ys, r ∈ t.rows)
    (h : xs.map (lockRow lockId now) = ys.map (lockRow lockId now)) : xs = ys := by
  induction xs generalizing ys with
  | nil => exact (List.map_eq_nil_iff.mp h.symm).symm
  | cons x xs ih =>
    cases ys with
    | nil => cases h
    | cons y ys =>
      obtain ⟨hhead,htail⟩ := List.cons.inj h
      have hid := congrArg MessageBufferRecord.id hhead
      rw [lockRow_id, lockRow_id] at hid
      rw [t.key_unique (hxs x List.mem_cons_self) (hys y List.mem_cons_self) hid,
        ih (fun r hr => hxs r (List.mem_cons_of_mem x hr))
          (fun r hr => hys r (List.mem_cons_of_mem y hr)) htail]

/-- A dequeue with a new lock id takes exactly the first rows that are ready,
unless one of them has a name that the pattern of the prefix matches. -/
theorem dequeueReady_exact_iff (s : Store) (limit now lockTimeoutMs : ℤ) (maxRetries : Option ℕ)
    (scope : Scope) (lockId : String) (hf : FreshLock lockId s) :
    Takes s now lockId (firstReady s limit now lockTimeoutMs maxRetries scope)
        (dequeueReady s limit now lockTimeoutMs maxRetries scope lockId) ↔
      ∀ r ∈ firstReady s limit now lockTimeoutMs maxRetries scope,
        ∀ pattern ∈ scopeExcludePattern scope, like r.endpointName pattern = false := by
  have htakes := dequeueReady_takes hf limit now lockTimeoutMs maxRetries scope
  have hfirst : firstReady s limit now lockTimeoutMs maxRetries scope =
      (s.table.selectOrdered MessageBufferRecord.createdAt
        (documentedReady now (now-lockTimeoutMs) maxRetries scope)).take limit.toNat := rfl
  have hsame : Takes s now lockId (firstReady s limit now lockTimeoutMs maxRetries scope)
      (dequeueReady s limit now lockTimeoutMs maxRetries scope lockId) ↔
      candidates s limit now lockTimeoutMs maxRetries scope =
        firstReady s limit now lockTimeoutMs maxRetries scope := by
    constructor
    · intro h
      have hreturned := htakes.returned.symm.trans h.returned
      exact lockRow_inj (fun r hr => (Table.mem_selectOldest hr).1)
        (fun r hr => (Table.mem_selectOldest hr).1) hreturned
    · intro h
      rw [← h]
      exact htakes
  rw [hsame, candidates_eq, hfirst, take_filter_iff]
  refine forall₂_congr fun r hr => ?_
  have hdocumented : documentedScope scope r.endpointName = true := by
    have hready : documentedReady now (now-lockTimeoutMs) maxRetries scope r = true :=
      (Table.mem_selectOldest hr).2
    exact (Bool.and_eq_true_iff.mp hready).2
  rw [inScope_iff]
  exact ⟨And.right,fun h => ⟨hdocumented,h⟩⟩

def waiting (endpointName : String) : Store :=
  (enqueue (emptyStore defaultMetadata) ⟨endpointName,"t",1,"1",none,none⟩ 0).1

theorem dequeue_of_one :
    Takes (waiting "humidity") 5 "5-a"
        (firstReady (waiting "humidity") 10 5 defaultLockTimeoutMs none ⟨none,some "ext-dest-"⟩)
        (dequeueReady (waiting "humidity") 10 5 defaultLockTimeoutMs none ⟨none,some "ext-dest-"⟩
          "5-a") ↔
      ∀ r ∈ firstReady (waiting "humidity") 10 5 defaultLockTimeoutMs none
        ⟨none,some "ext-dest-"⟩, ∀ pattern ∈ scopeExcludePattern ⟨none,some "ext-dest-"⟩,
          like r.endpointName pattern = false :=
  dequeueReady_exact_iff (waiting "humidity") 10 5 defaultLockTimeoutMs none
    ⟨none,some "ext-dest-"⟩ "5-a" (by decide)

/-- A name in capitals does not start with the prefix, and an exact name takes
precedence over it; neither row is returned. -/
theorem waiting_row_passed_over :
    ¬Takes (waiting "EXT-DEST-7") 5 "5-a"
      (firstReady (waiting "EXT-DEST-7") 10 5 defaultLockTimeoutMs none ⟨none,some "ext-dest-"⟩)
      (dequeueReady (waiting "EXT-DEST-7") 10 5 defaultLockTimeoutMs none
        ⟨none,some "ext-dest-"⟩ "5-a") ∧
    ¬Takes (waiting "ext-dest-7") 5 "5-a"
      (firstReady (waiting "ext-dest-7") 10 5 defaultLockTimeoutMs none
        ⟨some "ext-dest-7",some "ext-dest-"⟩)
      (dequeueReady (waiting "ext-dest-7") 10 5 defaultLockTimeoutMs none
        ⟨some "ext-dest-7",some "ext-dest-"⟩ "5-a") := by
  constructor
  · intro h
    have hreturned := h.returned
    revert hreturned
    decide
  · intro h
    have hreturned := h.returned
    revert hreturned
    decide

end Iotistica.BufferDequeue
