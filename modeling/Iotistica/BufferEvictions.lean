import Iotistica.BufferDeletion

/-!
# What the quotas evict

The rows that may be evicted stand in a queue in the order of their creation.
Each pass of either loop deletes a prefix of this queue, so the outcome of both
is a number: how many of these rows go.
-/

set_option autoImplicit false

namespace Iotistica.BufferEvictions
open Iotistica.KeyedTable Iotistica.BufferStore Iotistica.BufferDeletion

def ordinary (r : MessageBufferRecord) : Bool := !isCriticalRecord r

def queue (t : Rows) : List MessageBufferRecord :=
  t.selectOrdered MessageBufferRecord.createdAt queuedUnlocked

def evictable (t : Rows) : List MessageBufferRecord := (queue t).filter ordinary

def idsOf (rs : List MessageBufferRecord) : List ℕ := rs.map MessageBufferRecord.id

/-- The table without the first `n` rows that may be evicted. -/
def evicted (t : Rows) (n : ℕ) : Rows := t.delete (idIn (idsOf ((evictable t).take n)))

theorem mem_evictable {t : Rows} {r : MessageBufferRecord} :
    r ∈ evictable t ↔ r ∈ t.rows ∧ queuedUnlocked r = true ∧ isCriticalRecord r = false := by
  rw [evictable, List.mem_filter, queue, Table.mem_selectOrdered, and_assoc]
  simp only [ordinary, Bool.not_eq_true']

theorem nodup_evictable (t : Rows) : (idsOf (evictable t)).Nodup :=
  (Table.nodup_selectOrdered t _ _).sublist (List.filter_sublist.map _)

theorem pairwise_evictable (t : Rows) :
    (evictable t).Pairwise (fun a b => a.createdAt ≤ b.createdAt) :=
  (Table.pairwise_selectOrdered t _ _).filter _

theorem queue_delete (t : Rows) (p : MessageBufferRecord → Bool) :
    queue (t.delete p) = (queue t).filter (fun r => !p r) := Table.selectOrdered_delete t p _ _

theorem idIn_idsOf {rs : List MessageBufferRecord} {r : MessageBufferRecord} :
    idIn (idsOf rs) r = true ↔ ∃ a ∈ rs, a.id = r.id := by
  rw [idIn, List.contains_iff_mem, idsOf, List.mem_map]

theorem filter_prefix {rs : List MessageBufferRecord} (h : (idsOf rs).Nodup) (n : ℕ) :
    rs.filter (fun r => !idIn (idsOf (rs.take n)) r) = rs.drop n := by
  have hsplit : (idsOf (rs.take n)).Disjoint (idsOf (rs.drop n)) := by
    rw [← List.take_append_drop n rs, idsOf, List.map_append] at h
    exact List.disjoint_of_nodup_append h
  conv_lhs =>
    arg 2
    rw [← List.take_append_drop n rs]
  rw [List.filter_append]
  have htake : (rs.take n).filter (fun r => !idIn (idsOf (rs.take n)) r) = [] := by
    rw [List.filter_eq_nil_iff]
    intro r hr
    rw [idIn_idsOf.mpr ⟨r,hr,rfl⟩]
    exact Bool.false_ne_true
  have hdrop : (rs.drop n).filter (fun r => !idIn (idsOf (rs.take n)) r) = rs.drop n := by
    rw [List.filter_eq_self]
    intro r hr
    rw [Bool.not_eq_true', ← Bool.not_eq_true, idIn_idsOf]
    rintro ⟨a,ha,heq⟩
    have hmem : r.id ∈ idsOf (rs.take n) := heq ▸ List.mem_map_of_mem ha
    exact hsplit hmem (List.mem_map_of_mem hr)
  rw [htake, hdrop, List.nil_append]

theorem evictable_evicted (t : Rows) (n : ℕ) : evictable (evicted t n) = (evictable t).drop n := by
  rw [evictable, evicted, queue_delete, List.filter_filter]
  conv_lhs =>
    arg 1
    ext r
    rw [Bool.and_comm]
  rw [← List.filter_filter]
  exact filter_prefix (nodup_evictable t) n

theorem evicted_evicted (t : Rows) (m n : ℕ) : evicted (evicted t m) n = evicted t (m+n) := by
  have htake : (evictable t).take (m+n) =
      (evictable t).take m++((evictable t).drop m).take n := List.take_add
  apply Table.ext_rows
  · conv_lhs => rw [evicted, evictable_evicted, evicted]
    conv_rhs => rw [evicted, htake]
    simp only [Table.delete, List.filter_filter]
    apply List.filter_congr
    intro r _
    simp only [idIn, idsOf, List.map_append, List.contains_append, Bool.not_or]
    exact Bool.and_comm _ _
  · rfl

theorem evicted_zero (t : Rows) : evicted t 0 = t := by
  apply Table.ext_rows
  · simp [evicted, Table.delete, idIn, idsOf]
  · rfl

theorem evicted_perm (t : Rows) (n : ℕ) :
    ((evictable t).take n++(evicted t n).rows).Perm t.rows := by
  have hgone : ((evictable t).take n).Perm
      (t.rows.filter (idIn (idsOf ((evictable t).take n)))) := by
    have hids : (idsOf ((evictable t).take n)).Nodup :=
      (nodup_evictable t).sublist ((List.take_sublist _ _).map _)
    rw [List.perm_ext_iff_of_nodup hids.of_map (t.nodup.of_map.filter _)]
    intro r
    rw [List.mem_filter]
    constructor
    · intro hr
      exact ⟨(mem_evictable.mp (List.mem_of_mem_take hr)).1,idIn_idsOf.mpr ⟨r,hr,rfl⟩⟩
    · rintro ⟨hr,hid⟩
      obtain ⟨a,ha,heq⟩ := idIn_idsOf.mp hid
      obtain rfl := t.key_unique (mem_evictable.mp (List.mem_of_mem_take ha)).1 hr heq
      exact ha
  exact (hgone.append_right _).trans (List.filter_append_perm _ t.rows)

theorem length_evicted (t : Rows) {n : ℕ} (h : n ≤ (evictable t).length) :
    (evicted t n).rows.length+n = t.rows.length := by
  have hlen := (evicted_perm t n).length_eq
  rw [List.length_append, List.length_take, Nat.min_eq_left h] at hlen
  omega

theorem bytes_evicted (t : Rows) (n : ℕ) :
    bytesOf (evicted t n).rows+bytesOf ((evictable t).take n) = bytesOf t.rows := by
  have hsum := ((evicted_perm t n).map MessageBufferRecord.payloadBytes).sum_nat
  rw [List.map_append, List.sum_append_nat] at hsum
  unfold bytesOf
  omega

theorem deleteIds_evicted (t : Rows) {n : ℕ} (h : n ≤ (evictable t).length) :
    deleteIdsInChunks t (idsOf ((evictable t).take n)) = (evicted t n,n) := by
  have hfst := deleteIdsInChunks_fst t (idsOf ((evictable t).take n))
  have hlen := deleteIdsInChunks_length t (idsOf ((evictable t).take n))
  have hn := length_evicted t h
  refine Prod.ext hfst ?_
  rw [hfst] at hlen
  change (evicted t n).rows.length+_ = _ at hlen
  simp only
  omega

theorem pickByCount_eq (n : ℕ) (rs : List MessageBufferRecord) :
    pickByCount n rs = idsOf ((rs.filter ordinary).take n) := by
  induction rs generalizing n with
  | nil => cases n <;> rfl
  | cons r rs ih =>
    cases n with
    | zero => rfl
    | succ n =>
      rw [pickByCount, List.filter_cons, ordinary]
      cases hc : isCriticalRecord r with
      | true => exact ih (n+1)
      | false => exact congrArg (List.cons r.id) (ih n)

theorem pickByBytes_eq (bytes maxBytes : ℤ) (rs : List MessageBufferRecord) (removed : ℕ) :
    ∃ k ≤ (rs.filter ordinary).length,
      pickByBytes bytes maxBytes rs removed = (idsOf ((rs.filter ordinary).take k),
        removed+bytesOf ((rs.filter ordinary).take k)) ∧
      (∀ j < k, maxBytes < bytes-(removed+bytesOf ((rs.filter ordinary).take j) : ℕ)) ∧
      (k < (rs.filter ordinary).length →
        bytes-(removed+bytesOf ((rs.filter ordinary).take k) : ℕ) ≤ maxBytes) := by
  induction rs generalizing removed with
  | nil =>
    exact ⟨0,Nat.le_refl _,rfl,fun j hj => absurd hj (Nat.not_lt_zero j),fun h => absurd h (by simp)⟩
  | cons r rs ih =>
    rw [pickByBytes]
    split
    · rename_i hle
      exact ⟨0,Nat.zero_le _,rfl,fun j hj => absurd hj (Nat.not_lt_zero j),fun _ => hle⟩
    · rename_i hgt
      rw [List.filter_cons, ordinary]
      cases hc : isCriticalRecord r with
      | true => exact ih removed
      | false =>
        obtain ⟨k,hk,hpick,hmore,hend⟩ := ih (removed+r.payloadBytes)
        have hsum : ∀ j, removed+bytesOf ((r :: rs.filter ordinary).take (j+1)) =
            removed+r.payloadBytes+bytesOf ((rs.filter ordinary).take j) := by
          intro j
          rw [List.take_succ_cons, bytesOf, List.map_cons, List.sum_cons, ← Nat.add_assoc]
          rfl
        refine ⟨k+1,Nat.succ_le_succ hk,?_,fun j hj => ?_,fun hlt => ?_⟩
        · simp only [Bool.false_eq_true, if_false, Bool.not_false, if_true]
          rw [hpick, hsum]
          rfl
        · simp only [Bool.not_false, if_true]
          cases j with
          | zero =>
            rw [List.take_zero]
            exact Int.not_le.mp hgt
          | succ j =>
            rw [hsum]
            exact hmore j (Nat.lt_of_succ_lt_succ hj)
        · simp only [Bool.not_false, if_true] at hlt ⊢
          rw [hsum]
          exact hend (Nat.lt_of_succ_lt_succ hlt)

theorem window_prefix (t : Rows) (window : ℕ) :
    ∃ j ≤ (evictable t).length,
      (getQueuedOldest t window).filter ordinary = (evictable t).take j := by
  have hinitial : (getQueuedOldest t window).filter ordinary <+: evictable t :=
    (List.take_prefix window (queue t)).filter ordinary
  exact ⟨_,hinitial.length_le,List.prefix_iff_eq_take.mp hinitial⟩

def recordWindow (maxRecords : ℤ) (t : Rows) : ℕ :=
  let excess := (t.rows.length-maxRecords).toNat
  max (excess*3) (max excess 100)

def byteWindow (maxBytes : ℤ) (count bytes : ℕ) : ℕ :=
  let average := if 0 < count then max 1 (ceilDiv bytes count) else 1
  let needed := max 1 (ceilDiv (bytes-maxBytes).toNat average)
  max (needed*3) 100

theorem excessIds_eq (maxRecords : ℤ) (t : Rows) :
    ∃ n ≤ (evictable t).length, excessIds maxRecords t = idsOf ((evictable t).take n) ∧
      (n : ℤ) ≤ max 0 (t.rows.length-maxRecords) ∧
      (n = 0 → maxRecords < t.rows.length →
        ∀ r ∈ getQueuedOldest t (recordWindow maxRecords t), isCriticalRecord r = true) := by
  obtain ⟨j,hj,hwindow⟩ := window_prefix t (recordWindow maxRecords t)
  refine ⟨min (t.rows.length-maxRecords).toNat j,(min_le_right _ _).trans hj,?_,by omega,?_⟩
  · unfold excessIds
    rw [pickByCount_eq]
    change idsOf (((getQueuedOldest t (recordWindow maxRecords t)).filter ordinary).take _) = _
    rw [hwindow, List.take_take]
  · intro hzero hgt r hr
    have hj0 : j = 0 := by omega
    rw [hj0, List.take_zero, List.filter_eq_nil_iff] at hwindow
    simpa [ordinary] using hwindow r hr

theorem overflowIds_eq (maxBytes : ℤ) (t : Rows) :
    ∃ n ≤ (evictable t).length,
      overflowIds maxBytes t.rows.length (bytesOf t.rows) t =
        (idsOf ((evictable t).take n),bytesOf ((evictable t).take n)) ∧
      (∀ k < n, maxBytes < (bytesOf (evicted t k).rows : ℤ)) ∧
      (n = 0 → maxBytes < bytesOf t.rows →
        ∀ r ∈ getQueuedOldest t (byteWindow maxBytes t.rows.length (bytesOf t.rows)),
          isCriticalRecord r = true) := by
  obtain ⟨j,hj,hwindow⟩ := window_prefix t (byteWindow maxBytes t.rows.length (bytesOf t.rows))
  obtain ⟨k,hk,hpick,hmore,hend⟩ := pickByBytes_eq (bytesOf t.rows) maxBytes
    (getQueuedOldest t (byteWindow maxBytes t.rows.length (bytesOf t.rows))) 0
  rw [hwindow] at hk hpick hmore hend
  have hkj : k ≤ j := hk.trans ((List.length_take_le _ _))
  have htake : ((evictable t).take j).take k = (evictable t).take k := by
    rw [List.take_take, Nat.min_eq_left hkj]
  refine ⟨k,hkj.trans hj,?_,?_,?_⟩
  · refine hpick.trans ?_
    rw [htake, Nat.zero_add]
  · intro i hi
    have hlt := hmore i hi
    have hbytes := bytes_evicted t i
    rw [List.take_take, Nat.min_eq_left (by omega)] at hlt
    omega
  · intro hzero hgt r hr
    have hj0 : ((evictable t).take j).length = 0 := by
      by_contra hpos
      have hle := hend (by omega)
      rw [hzero, List.take_zero] at hle
      simp only [bytesOf, List.map_nil, List.sum_nil] at hle hgt
      omega
    rw [List.length_eq_zero_iff.mp hj0, List.filter_eq_nil_iff] at hwindow
    simpa [ordinary] using hwindow r hr

/-- The passes of the record loop, and those of the byte loop with its counters. -/
def RecordPass (maxRecords : ℤ) (t t' : Rows) : Prop :=
  maxRecords < t.rows.length ∧ excessIds maxRecords t ≠ [] ∧
    t' = (deleteIdsInChunks t (excessIds maxRecords t)).1

structure ByteState where
  rows : Rows
  currentCount : ℕ
  currentBytes : ℕ

def ByteState.picked (maxBytes : ℤ) (x : ByteState) : List ℕ × ℕ :=
  overflowIds maxBytes x.currentCount x.currentBytes x.rows

def BytePass (maxBytes : ℤ) (x x' : ByteState) : Prop :=
  maxBytes < x.currentBytes ∧ (x.picked maxBytes).1 ≠ [] ∧
    x' = ⟨(deleteIdsInChunks x.rows (x.picked maxBytes).1).1,
      x.currentCount-(x.picked maxBytes).1.length,x.currentBytes-(x.picked maxBytes).2⟩

/-- The counters that the byte loop begins with. -/
def ByteState.start (t : Rows) : ByteState := ⟨t,t.rows.length,bytesOf t.rows⟩

def Ends {α : Type*} (pass : α → α → Prop) (a b : α) : Prop :=
  Relation.ReflTransGen pass a b ∧ ∀ c, ¬pass b c

theorem Ends.unique {α : Type*} {pass : α → α → Prop}
    (hpass : ∀ a b c, pass a b → pass a c → b = c) {a b c : α} (hb : Ends pass a b)
    (hc : Ends pass a c) : b = c := by
  obtain ⟨hab,hb⟩ := hb
  obtain ⟨hac,hc⟩ := hc
  induction hab using Relation.ReflTransGen.head_induction_on with
  | refl =>
    rcases hac.cases_head with rfl | ⟨x,hx,-⟩
    · rfl
    · exact absurd hx (hb x)
  | head hstep _ ih =>
    rcases hac.cases_head with rfl | ⟨x,hx,hxc⟩
    · exact absurd hstep (hc _)
    · exact ih (hpass _ _ _ hx hstep ▸ hxc)

theorem recordPass_unique (maxRecords : ℤ) (t t' t'' : Rows) (h : RecordPass maxRecords t t')
    (h' : RecordPass maxRecords t t'') : t' = t'' := h.2.2.trans h'.2.2.symm

theorem bytePass_unique (maxBytes : ℤ) (x x' x'' : ByteState) (h : BytePass maxBytes x x')
    (h' : BytePass maxBytes x x'') : x' = x'' := h.2.2.trans h'.2.2.symm

theorem enforceRecords_ends (maxRecords : ℤ) (fuel : ℕ) (t : Rows) (hf : t.rows.length < fuel) :
    Ends (RecordPass maxRecords) t (enforceRecords maxRecords fuel t).1 := by
  induction fuel generalizing t with
  | zero => exact absurd hf (Nat.not_lt_zero _)
  | succ fuel ih =>
    simp only [enforceRecords]
    split
    · rename_i hgt
      split
      · rename_i he
        exact ⟨.refl,fun c hc => hc.2.1 (List.isEmpty_iff.mp he)⟩
      · rename_i he
        have hs := picked_shrinks t _ he (fun _ h => mem_excessIds h)
        obtain ⟨hreach,hstop⟩ := ih (deleteIdsInChunks t (excessIds maxRecords t)).1 (by omega)
        exact ⟨.head ⟨hgt,fun h => he (List.isEmpty_iff.mpr h),rfl⟩ hreach,hstop⟩
    · rename_i hle
      exact ⟨.refl,fun c hc => hle hc.1⟩

theorem enforceBytes_ends (maxBytes : ℤ) (fuel : ℕ) (x : ByteState)
    (hf : x.rows.rows.length < fuel) :
    ∃ x', Ends (BytePass maxBytes) x x' ∧
      x'.rows = (enforceBytes maxBytes fuel x.currentCount x.currentBytes x.rows).1 := by
  induction fuel generalizing x with
  | zero => exact absurd hf (Nat.not_lt_zero _)
  | succ fuel ih =>
    simp only [enforceBytes]
    split
    · rename_i hgt
      split
      · rename_i he
        exact ⟨x,⟨.refl,fun c hc => hc.2.1 (List.isEmpty_iff.mp he)⟩,rfl⟩
      · rename_i he
        have hs := picked_shrinks x.rows _ he (fun _ h => mem_overflowIds h)
        obtain ⟨x',⟨hreach,hstop⟩,hrows⟩ := ih
          ⟨(deleteIdsInChunks x.rows (x.picked maxBytes).1).1,
            x.currentCount-(x.picked maxBytes).1.length,x.currentBytes-(x.picked maxBytes).2⟩
          (Nat.lt_of_lt_of_le hs (Nat.le_of_lt_succ hf))
        exact ⟨x',⟨.head ⟨hgt,fun h => he (List.isEmpty_iff.mpr h),rfl⟩ hreach,hstop⟩,hrows⟩
    · rename_i hle
      exact ⟨x,⟨.refl,fun c hc => hle hc.1⟩,rfl⟩

theorem enforceRecords_eq (maxRecords : ℤ) (fuel : ℕ) (t : Rows) :
    ∃ n ≤ (evictable t).length, enforceRecords maxRecords fuel t = (evicted t n,n) ∧
      (n : ℤ) ≤ max 0 (t.rows.length-maxRecords) := by
  induction fuel generalizing t with
  | zero => exact ⟨0,Nat.zero_le _,by rw [evicted_zero]; rfl,le_max_left _ _⟩
  | succ fuel ih =>
    simp only [enforceRecords]
    split
    · split
      · exact ⟨0,Nat.zero_le _,by rw [evicted_zero],le_max_left _ _⟩
      · obtain ⟨m,hm,hids,hmle,-⟩ := excessIds_eq maxRecords t
        rw [hids, deleteIds_evicted t hm]
        obtain ⟨n,hn,heq,hnle⟩ := ih (evicted t m)
        have hlen := length_evicted t hm
        rw [evictable_evicted, List.length_drop] at hn
        refine ⟨m+n,by omega,?_,by omega⟩
        simp only [heq, evicted_evicted]
    · exact ⟨0,Nat.zero_le _,by rw [evicted_zero],le_max_left _ _⟩

theorem start_pass {maxBytes : ℤ} {t : Rows} {x : ByteState}
    (h : BytePass maxBytes (.start t) x) :
    ∃ n ≤ (evictable t).length, 0 < n ∧ x = .start (evicted t n) ∧
      ∀ k < n, maxBytes < (bytesOf (evicted t k).rows : ℤ) := by
  obtain ⟨-,hne,rfl⟩ := h
  obtain ⟨n,hn,heq,hmore,-⟩ := overflowIds_eq maxBytes t
  have hpicked : (ByteState.start t).picked maxBytes =
      (idsOf ((evictable t).take n),bytesOf ((evictable t).take n)) := heq
  have hlen := length_evicted t hn
  have hbytes := bytes_evicted t n
  refine ⟨n,hn,?_,?_,hmore⟩
  · by_contra hpos
    rw [hpicked, Nat.eq_zero_of_not_pos hpos] at hne
    exact hne rfl
  · rw [hpicked]
    have hids : (idsOf ((evictable t).take n)).length = n := by
      rw [idsOf, List.length_map, List.length_take, Nat.min_eq_left hn]
    simp only [ByteState.start, deleteIds_evicted t hn, hids, ByteState.mk.injEq, true_and]
    omega

theorem start_passes {maxBytes : ℤ} {t : Rows} {x : ByteState}
    (h : Relation.ReflTransGen (BytePass maxBytes) (.start t) x) :
    ∃ n ≤ (evictable t).length, x = .start (evicted t n) ∧
      ∀ k < n, maxBytes < (bytesOf (evicted t k).rows : ℤ) := by
  induction h with
  | refl =>
    exact ⟨0,Nat.zero_le _,by rw [evicted_zero],fun k hk => absurd hk (Nat.not_lt_zero k)⟩
  | tail _ hstep ih =>
    obtain ⟨m,hm,rfl,hbefore⟩ := ih
    obtain ⟨n,hn,-,rfl,hmore⟩ := start_pass hstep
    rw [evictable_evicted, List.length_drop] at hn
    refine ⟨m+n,by omega,by rw [evicted_evicted],fun k hk => ?_⟩
    rcases Nat.lt_or_ge k m with hlt | hge
    · exact hbefore k hlt
    · have hlast := hmore (k-m) (by omega)
      rwa [evicted_evicted, Nat.add_sub_cancel' hge] at hlast

/-- What enforcing the quotas does: first the record loop evicts rows, then the
byte loop goes on from there, and each stops by itself. -/
structure Enforced (s : Store) (m n : ℕ) : Prop where
  records : Ends (RecordPass s.metadata.maxRecords) s.table (evicted s.table m)
  bytes : Ends (BytePass s.metadata.maxBytes) (.start (evicted s.table m))
    (.start (evicted s.table (m+n)))
  result : (enforceQuotas s).table = evicted s.table (m+n)
  few : m+n ≤ (evictable s.table).length
  excess : (m : ℤ) ≤ max 0 (s.table.rows.length-s.metadata.maxRecords)
  overflow : ∀ k, m ≤ k → k < m+n →
    s.metadata.maxBytes < (bytesOf (evicted s.table k).rows : ℤ)

theorem enforced (s : Store) : ∃ m n, Enforced s m n := by
  obtain ⟨m,hm,heq,hexcess⟩ :=
    enforceRecords_eq s.metadata.maxRecords (s.table.rows.length+1) s.table
  have hends := enforceRecords_ends s.metadata.maxRecords _ s.table (Nat.lt_succ_self _)
  rw [heq] at hends
  obtain ⟨x,hx,hrows⟩ := enforceBytes_ends s.metadata.maxBytes
    ((evicted s.table m).rows.length+1) (.start (evicted s.table m)) (Nat.lt_succ_self _)
  obtain ⟨n,hn,rfl,hoverflow⟩ := start_passes hx.1
  rw [evicted_evicted] at hx hrows
  rw [evictable_evicted, List.length_drop] at hn
  refine ⟨m,n,hends,hx,?_,by omega,hexcess,fun k hk hlt => ?_⟩
  · have hrows' : evicted s.table (m+n) = _ := hrows
    rw [hrows', enforceQuotas, heq]
    rfl
  · have hlast := hoverflow (k-m) (by omega)
    rwa [evicted_evicted, Nat.add_sub_cancel' hk] at hlast

def Deleted (s : Store) (r : MessageBufferRecord) : Prop :=
  r ∈ s.table.rows ∧ r ∉ (enforceQuotas s).table.rows

theorem deleted_iff {s : Store} {m n : ℕ} (h : Enforced s m n) (r : MessageBufferRecord) :
    Deleted s r ↔ r ∈ (evictable s.table).take (m+n) := by
  unfold Deleted
  rw [h.result, evicted, Table.mem_delete, not_and, Bool.not_eq_false, idIn_idsOf]
  constructor
  · rintro ⟨hr,hgone⟩
    obtain ⟨a,ha,heq⟩ := hgone hr
    obtain rfl := s.table.key_unique (mem_evictable.mp (List.mem_of_mem_take ha)).1 hr heq
    exact ha
  · intro hr
    exact ⟨(mem_evictable.mp (List.mem_of_mem_take hr)).1,fun _ => ⟨r,hr,rfl⟩⟩

theorem last_deleted {t : Rows} {n : ℕ} (hn : n ≤ (evictable t).length)
    {r : MessageBufferRecord} (hr : r ∈ (evictable t).take n)
    (hlast : ∀ a ∈ (evictable t).take n, a ≠ r → a.createdAt < r.createdAt) :
    ∃ k, n = k+1 ∧ (evictable t).take n = (evictable t).take k++[r] := by
  obtain ⟨i,hi,rfl⟩ := List.mem_take_iff_getElem.mp hr
  have hi' : i < n := by omega
  obtain ⟨k,rfl⟩ := Nat.exists_eq_succ_of_ne_zero (Nat.ne_zero_of_lt hi')
  have hk : k < (evictable t).length := hn
  refine ⟨k,rfl,?_⟩
  rw [List.take_succ_eq_append_getElem hk]
  obtain rfl | hlt : i = k ∨ i < k := by omega
  · rfl
  · have horder := List.pairwise_iff_getElem.mp (pairwise_evictable t) i k (by omega) hk hlt
    have hne : (evictable t)[k] ≠ (evictable t)[i] := fun heq =>
      absurd (((nodup_evictable t).of_map.getElem_inj_iff).mp heq) (by omega)
    have hmem : (evictable t)[k] ∈ (evictable t).take (k+1) :=
      List.mem_take_iff_getElem.mpr ⟨k,by omega,rfl⟩
    exact absurd (hlast _ hmem hne) (not_lt.mpr horder)

/-- Enforcing the quotas stops, spares the critical and the claimed rows, takes
the oldest of the others, and none too many: with the youngest of the deleted
rows back in the table a limit is exceeded. -/
theorem eviction_safe_minimal (s : Store) :
    (∃ t x, Ends (RecordPass s.metadata.maxRecords) s.table t ∧
      Ends (BytePass s.metadata.maxBytes) (.start t) x ∧ (enforceQuotas s).table = x.rows) ∧
    (enforceQuotas s).table.rows.Sublist s.table.rows ∧
    (∀ r, Deleted s r →
      r.status = .queued ∧ r.lockId = none ∧ isCriticalRecord r = false) ∧
    (∀ r a, Deleted s r → a ∈ s.table.rows → queuedUnlocked a = true →
      isCriticalRecord a = false → a.createdAt < r.createdAt → Deleted s a) ∧
    (∀ r, Deleted s r → (∀ a, Deleted s a → a ≠ r → a.createdAt < r.createdAt) →
      s.metadata.maxRecords < ((enforceQuotas s).table.rows.length+1 : ℕ) ∨
      s.metadata.maxBytes < (bytesOf (enforceQuotas s).table.rows+r.payloadBytes : ℕ)) := by
  obtain ⟨m,n,h⟩ := enforced s
  refine ⟨⟨_,_,h.records,h.bytes,h.result⟩,?_,fun r hr => ?_,fun r a hr ha hq hc hlt => ?_,
    fun r hr hlast => ?_⟩
  · rw [h.result]
    exact List.filter_sublist
  · rw [deleted_iff h] at hr
    obtain ⟨-,hq,hc⟩ := mem_evictable.mp (List.mem_of_mem_take hr)
    simp only [queuedUnlocked, Bool.and_eq_true, beq_iff_eq, Option.isNone_iff_eq_none] at hq
    exact ⟨hq.1,hq.2,hc⟩
  · rw [deleted_iff h] at hr ⊢
    obtain ⟨j,hj,rfl⟩ := List.mem_take_iff_getElem.mp hr
    obtain ⟨i,hi,rfl⟩ := List.getElem_of_mem (mem_evictable.mpr ⟨ha,hq,hc⟩)
    refine List.mem_take_iff_getElem.mpr ⟨i,?_,rfl⟩
    by_contra hge
    have hji : j < i := by omega
    have horder := List.pairwise_iff_getElem.mp (pairwise_evictable s.table) j i (by omega) hi hji
    exact absurd hlt (not_lt.mpr horder)
  · simp only [deleted_iff h] at hr hlast
    obtain ⟨k,hk,htake⟩ := last_deleted h.few hr hlast
    have hfew := h.few
    have hlen := length_evicted s.table h.few
    have hbytes := bytes_evicted s.table (m+n)
    have hback := bytes_evicted s.table k
    rw [htake, bytesOf, bytesOf, List.map_append, List.sum_append_nat] at hbytes
    rw [h.result]
    rcases Nat.eq_zero_or_pos n with rfl | hpos
    · left
      have hexcess := h.excess
      omega
    · right
      have hmore := h.overflow k (by omega) (by omega)
      simp only [bytesOf, List.map_cons, List.map_nil, List.sum_cons, List.sum_nil] at *
      omega

def reading : NewRecord := ⟨"humidity","sensors/humidity",1,"41",none,none⟩

end Iotistica.BufferEvictions
