import Iotistica.OfflineFlush

/-!
# Why items leave the offline queue

While the flush finds its item in place the attempts stored with a row are
failures of its own item, and every item that leaves has a reason of its
own. Otherwise the flush takes another item: after the head was taken away
while it was being sent, or by the attempts of the row at its old position.
-/

set_option autoImplicit false

namespace Iotistica.OfflineQueue
open Iotistica.KeyedTable Iotistica.GuardedRun

variable {T : Type}

def AttemptsOwned (cfg : Config T) (s : State T) : Prop :=
  ∀ row ∈ getRowsOrdered cfg s.queue.table, row.attempts ≤ s.failures.count row.id

def JudgedOwned (failures : List ℕ) : Flush T → Prop
  | .judged i items opts attempts =>
    opts.maxRetries ≤ attempts → ∀ r ∈ rowAt items i, opts.maxRetries ≤ failures.count r
  | _ => True

structure Owned (cfg : Config T) (s : State T) : Prop where
  attempts : AttemptsOwned cfg s
  judged : JudgedOwned s.failures s.flush

theorem AttemptsOwned.subset {cfg : Config T} {s s' : State T} (h : AttemptsOwned cfg s)
    (hrows : getRowsOrdered cfg s'.queue.table ⊆ getRowsOrdered cfg s.queue.table)
    (hfail : s'.failures = s.failures) : AttemptsOwned cfg s' := by
  intro row hrow
  rw [hfail]
  exact h row (hrows hrow)

theorem rows_tail_subset (cfg : Config T) (table : Store) :
    getRowsOrdered cfg (removeOldestFromDisk cfg table) ⊆ getRowsOrdered cfg table := by
  rw [rows_removeOldest]
  exact fun row hrow => List.mem_of_mem_tail hrow

theorem push_owned {cfg : Config T} (hsize : 1 ≤ cfg.maxSize) {q : Queue T} {now : ℤ}
    {failures : List ℕ} (item : T) (hs : Sound cfg q now)
    (h : ∀ row ∈ getRowsOrdered cfg q.table, row.attempts ≤ failures.count row.id) :
    ∀ row ∈ getRowsOrdered cfg (push cfg q item now).table,
      row.attempts ≤ failures.count row.id := by
  have hinsert : ∀ q' : Queue T, Sound cfg q' now →
      (∀ row ∈ getRowsOrdered cfg q'.table, row ∈ getRowsOrdered cfg q.table) →
      ∀ row ∈ getRowsOrdered cfg (insert cfg q'.table item now),
        row.attempts ≤ failures.count row.id := by
    intro q' hs' hsub row hrow
    rw [rows_insert cfg q'.table item now hs'.past] at hrow
    rcases List.mem_append.mp hrow with hrow | hrow
    · exact h row (hsub row hrow)
    · rw [List.mem_singleton.mp hrow]
      exact Nat.zero_le _
  rw [push_eq hsize]
  simp only
  split
  · exact hinsert _ hs.removeFirst (fun row hrow => rows_tail_subset cfg q.table hrow)
  · exact hinsert _ hs (fun row hrow => hrow)

theorem incrementAttempts_owned {cfg : Config T} {s : State T} {items : List (Entry T)} {i : ℕ}
    (hat : AtIndex cfg s.queue items i) (h : AttemptsOwned cfg s) :
    ∀ row ∈ getRowsOrdered cfg (incrementAttempts cfg s.queue i).table,
      row.attempts ≤ (s.failures++rowAt items i).count row.id := by
  have hmore : ∀ r, s.failures.count r ≤ (s.failures++rowAt items i).count r := by
    intro r
    rw [List.count_append]
    exact Nat.le_add_right _ _
  unfold incrementAttempts
  split
  · rename_i row hrow
    have hown : rowAt items i = [row.id] := hat row hrow
    have hmem : row ∈ getRowsOrdered cfg s.queue.table := List.mem_of_getElem? hrow
    intro r hr
    rw [rows_updateAttempts] at hr
    obtain ⟨r',hr',rfl⟩ := List.mem_map.mp hr
    by_cases hid : r'.id = row.id
    · have hle := h row hmem
      simp only [hid, beq_self_eq_true, if_true, hown, List.count_append, List.count_singleton]
      omega
    · simp only [beq_false_of_ne hid, Bool.false_eq_true, if_false]
      exact (h r' hr').trans (hmore r'.id)
  · intro r hr
    exact (h r hr).trans (hmore r.id)

theorem getAttempts_owned {cfg : Config T} {s : State T} {items : List (Entry T)} {i limit : ℕ}
    (h : AttemptsOwned cfg s)
    (hat : limit ≤ getAttempts cfg s.queue i → AtIndex cfg s.queue items i)
    (hlimit : limit ≤ getAttempts cfg s.queue i) :
    ∀ r ∈ rowAt items i, limit ≤ s.failures.count r := by
  intro r hr
  have hat' := hat hlimit
  unfold getAttempts at hlimit
  cases hrow : (getRowsOrdered cfg s.queue.table)[i]? with
  | none =>
    rw [hrow] at hlimit
    exact hlimit.trans (Nat.zero_le _)
  | some row =>
    have hown : rowAt items i = [row.id] := hat' row hrow
    rw [hown, List.mem_singleton] at hr
    rw [hrow] at hlimit
    rw [hr]
    exact hlimit.trans (h row (List.mem_of_getElem? hrow))

theorem step_owned {cfg : Config T} (hsize : 1 ≤ cfg.maxSize) (s : State T) (e : Event T)
    (hok : InPlace cfg s e) (ha : Aligned cfg s) (h : Owned cfg s) : Owned cfg (step cfg s e) := by
  cases e with
  | tick ms => exact ⟨h.attempts,h.judged⟩
  | enqueue item =>
    refine ⟨?_,h.judged⟩
    apply push_owned hsize item (ha.sound.pruneExpired none)
    intro row hrow
    exact h.attempts row ((rows_pruneExpired_suffix cfg s.queue none s.now).subset hrow)
  | dequeue =>
    refine ⟨h.attempts.subset ?_ rfl,h.judged⟩
    simp only [step, dequeue_queue cfg s.queue ha.sound.mirrors]
    exact rows_tail_subset cfg s.queue.table
  | pruneExpired ttlMs =>
    exact ⟨h.attempts.subset (rows_pruneExpired_suffix cfg s.queue ttlMs s.now).subset rfl,h.judged⟩
  | clear =>
    refine ⟨?_,h.judged⟩
    intro row hrow
    rw [show (step cfg s .clear).queue.table = s.queue.table.delete (ofQueue cfg) from rfl,
      rows_clear] at hrow
    cases hrow
  | flush opts =>
    simp only [step]
    split
    · refine ⟨h.attempts,?_⟩
      simp only [sendFrom]
      split <;> trivial
    · exact h
  | settle ok =>
    simp only [step, InPlace] at hok ⊢
    split
    · rename_i i items opts hflush
      rw [hflush] at hok
      cases ok with
      | true => exact ⟨h.attempts.subset (rows_tail_subset cfg s.queue.table) rfl,trivial⟩
      | false => exact ⟨incrementAttempts_owned hok h.attempts,trivial⟩
    · exact h
  | proceed =>
    simp only [step, proceed, InPlace] at hok ⊢
    split
    · refine ⟨h.attempts,?_⟩
      simp only [sendFrom]
      split <;> trivial
    · rename_i i items opts hflush
      rw [hflush] at hok
      split
      · exact ⟨h.attempts,getAttempts_owned h.attempts hok⟩
      · exact ⟨h.attempts,trivial⟩
    · split
      · exact ⟨h.attempts.subset (rows_tail_subset cfg s.queue.table) rfl,trivial⟩
      · exact ⟨h.attempts,trivial⟩
    · exact h

theorem head_of_tail {q : Queue T} {r : ℕ} (hr : r ∈ queued q) (hgone : r ∉ (queued q).tail) :
    ∃ entry, q.inMemoryQueue.head? = some entry ∧ entry.row = r := by
  unfold queued at hr hgone
  cases hq : q.inMemoryQueue with
  | nil => simp [hq] at hr
  | cons entry rest =>
    rw [hq, List.map_cons] at hr hgone
    rcases List.mem_cons.mp hr with rfl | hr
    · exact ⟨entry,rfl,rfl⟩
    · exact absurd hr hgone

theorem removed_own {cfg : Config T} {q : Queue T} {items : List (Entry T)} {i r : ℕ}
    (hat : AtHead q items i) (hr : r ∈ queued q) (hgone : r ∉ queued (removeFirst cfg q)) :
    r ∈ rowAt items i := by
  rw [queued_removeFirst] at hgone
  obtain ⟨entry,hhead,rfl⟩ := head_of_tail hr hgone
  rw [hat entry hhead]
  exact List.mem_singleton_self _

theorem enqueue_mayLeave {cfg : Config T} (hsize : 1 ≤ cfg.maxSize) {s : State T} (item : T)
    (hs : Sound cfg s.queue s.now) {r : ℕ} (hr : r ∈ queued s.queue)
    (hgone : r ∉ queued (enqueue cfg s.queue item s.now)) :
    MayLeave cfg s r (.enqueue item) := by
  have hprune := hs.pruneExpired none
  by_cases hkept : r ∈ queued (pruneExpired cfg s.queue none s.now)
  · rw [enqueue, (queued_push hsize _ item s.now).1] at hgone
    have hout : r ∉ (queued (pruneExpired cfg s.queue none s.now)).tail := by
      intro htail
      apply hgone
      apply List.mem_append_left
      split
      · exact htail
      · exact hkept
    obtain ⟨entry,hhead,rfl⟩ := head_of_tail hkept hout
    apply MayLeave.evicted
    have hrows := congrArg List.head? hprune.mirrors.rows
    rw [List.head?_map, List.head?_map, hhead] at hrows
    exact hrows
  · exact .expiredOnEnqueue (expired_of_pruned hs hr hkept)

theorem proceed_mayLeave {cfg : Config T} {s : State T} (hok : InPlace cfg s .proceed)
    (h : Owned cfg s) {r : ℕ} (hr : r ∈ queued s.queue)
    (hgone : r ∉ queued (proceed cfg s).queue) : MayLeave cfg s r .proceed := by
  have hj := h.judged
  simp only [proceed, InPlace] at hok hgone
  split at hgone
  · exact absurd hr hgone
  · split at hgone
    · exact absurd hr hgone
    · exact absurd hr hgone
  · rename_i i items opts attempts hflush
    rw [hflush] at hok hj
    split at hgone
    · rename_i hlimit
      exact .dropped hflush (hj hlimit r (removed_own (hok hlimit) hr hgone))
    · exact absurd hr hgone
  · exact absurd hr hgone

theorem step_mayLeave {cfg : Config T} (hsize : 1 ≤ cfg.maxSize) (s : State T) (e : Event T)
    (hok : InPlace cfg s e) (ha : Aligned cfg s) (h : Owned cfg s) (r : ℕ)
    (hd : Departs cfg s.queue (step cfg s e).queue r) : MayLeave cfg s r e := by
  have hafter := (step_aligned hsize s e ha).sound
  have hgone : r ∈ queued s.queue ∧ r ∉ queued (step cfg s e).queue := by
    rcases hd with hd | hd
    · exact hd
    · rwa [queued_eq_stored ha.sound.mirrors, queued_eq_stored hafter.mirrors] at hd
  cases e with
  | tick ms => exact absurd hgone.1 hgone.2
  | enqueue item => exact enqueue_mayLeave hsize item ha.sound hgone.1 hgone.2
  | dequeue =>
    have hout := hgone.2
    simp only [step, dequeue_queue cfg s.queue ha.sound.mirrors, queued_removeFirst] at hout
    obtain ⟨entry,hhead,rfl⟩ := head_of_tail hgone.1 hout
    apply MayLeave.returned
    unfold dequeue
    cases hq : s.queue.inMemoryQueue with
    | nil => simp [hq] at hhead
    | cons first rest =>
      rw [hq] at hhead
      exact congrArg (Option.map Entry.row) hhead
  | pruneExpired ttlMs => exact .expired (expired_of_pruned ha.sound hgone.1 hgone.2)
  | clear => exact .cleared
  | flush opts =>
    have hout := hgone.2
    simp only [step] at hout
    split at hout
    · exact absurd hgone.1 hout
    · exact absurd hgone.1 hout
  | settle ok =>
    have hout := hgone.2
    simp only [step, InPlace] at hok hout
    split at hout
    · rename_i i items opts hflush
      rw [hflush] at hok
      cases ok with
      | true =>
        apply MayLeave.sent
        simp only [step, hflush]
        exact List.mem_append_right _ (removed_own hok hgone.1 hout)
      | false =>
        rw [settle, queued, incrementAttempts_memory] at hout
        exact absurd hgone.1 hout
    · exact absurd hgone.1 hout
  | proceed => exact proceed_mayLeave hok h hgone.1 hgone.2

theorem count_replicates (rows : List OfflineQueueRecord) {row : OfflineQueueRecord}
    (h : row ∈ rows) :
    row.attempts ≤ (rows.flatMap (fun r => List.replicate r.attempts r.id)).count row.id := by
  induction rows with
  | nil => cases h
  | cons a rows ih =>
    rw [List.flatMap_cons, List.count_append]
    rcases List.mem_cons.mp h with rfl | h
    · rw [List.count_replicate_self]
      exact Nat.le_add_right _ _
    · exact (ih h).trans (Nat.le_add_left _ _)

theorem loaded_aligned {cfg : Config T} {table : Store} {now : ℤ} (h : Readable cfg table now) :
    Aligned cfg (loaded cfg table now) :=
  ⟨loaded_sound h,fun _ _ hr => (List.not_mem_nil hr).elim,fun _ hr => (List.not_mem_nil hr).elim,trivial⟩

theorem loaded_owned (cfg : Config T) (table : Store) (now : ℤ) :
    Owned cfg (loaded cfg table now) :=
  ⟨fun _ hrow => count_replicates _ hrow,trivial⟩

structure InOrder (cfg : Config T) (s : State T) : Prop where
  aligned : Aligned cfg s
  owned : Owned cfg s

theorem step_inOrder {cfg : Config T} (hsize : 1 ≤ cfg.maxSize) (s : State T) (e : Event T)
    (hok : InPlace cfg s e) (h : InOrder cfg s) : InOrder cfg (step cfg s e) :=
  ⟨step_aligned hsize s e h.aligned,step_owned hsize s e hok h.aligned h.owned⟩

theorem run_inOrder {cfg : Config T} (hsize : 1 ≤ cfg.maxSize) {table : Store} {now : ℤ}
    (hread : Readable cfg table now) (es : List (Event T))
    (h : Meets (step cfg) (InPlace cfg) es (loaded cfg table now)) :
    InOrder cfg (run (step cfg) es (loaded cfg table now)) :=
  run_invariant (fun s e hok hi => step_inOrder hsize s e hok hi) es _ h
    ⟨loaded_aligned hread,loaded_owned cfg table now⟩

/-- In a run that finds its items in place every item leaves for a reason of
its own and none is sent again after a success. -/
theorem no_item_removed_for_another (cfg : Config T) (hsize : 1 ≤ cfg.maxSize) (table : Store)
    (now : ℤ) (hread : Readable cfg table now) (es : List (Event T))
    (h : Meets (step cfg) (InPlace cfg) es (loaded cfg table now)) :
    ∀ pre, pre <+: es → NotResent (run (step cfg) pre (loaded cfg table now)) ∧
      ∀ e, pre++[e] <+: es → ∀ r,
        Departs cfg (run (step cfg) pre (loaded cfg table now)).queue
          (run (step cfg) (pre++[e]) (loaded cfg table now)).queue r →
        MayLeave cfg (run (step cfg) pre (loaded cfg table now)) r e := by
  rintro pre ⟨post,rfl⟩
  rw [meets_append] at h
  have hi := run_inOrder hsize hread pre h.1
  refine ⟨hi.aligned.notResent,?_⟩
  intro e he r hd
  obtain ⟨rest,rfl⟩ : ∃ rest, post = e::rest := by
    obtain ⟨rest,hrest⟩ := he
    rw [List.append_assoc] at hrest
    exact ⟨rest,(List.append_cancel_left hrest).symm⟩
  have hrun : run (step cfg) (pre++[e]) (loaded cfg table now)
      = step cfg (run (step cfg) pre (loaded cfg table now)) e := by
    simp [run]
  rw [hrun] at hd
  exact step_mayLeave hsize _ e h.2.1 hi.aligned hi.owned r hd

/-- The first item is pushed out while it is being sent; its success takes
the second one. -/
def pushedOut : List (Event ℕ) := [.flush ⟨3,true⟩,.tick 4,.enqueue 11]

theorem item_removed_for_another :
    ¬∀ pre, pre <+: pushedOut++[.settle true] →
      NotResent (run (step numberQueue) pre (loaded numberQueue numberTable 5)) ∧
      ∀ e, pre++[e] <+: pushedOut++[.settle true] → ∀ r,
        Departs numberQueue (run (step numberQueue) pre (loaded numberQueue numberTable 5)).queue
          (run (step numberQueue) (pre++[e]) (loaded numberQueue numberTable 5)).queue r →
        MayLeave numberQueue (run (step numberQueue) pre (loaded numberQueue numberTable 5)) r e := by
  intro h
  have hleave := (h pushedOut (List.prefix_append _ _)).2 (.settle true) List.prefix_rfl 3
    (Or.inl (by decide +kernel))
  cases hleave with
  | sent hmem => exact absurd hmem (by decide +kernel)

instance (q : Queue T) (items : List (Entry T)) (i : ℕ) : Decidable (AtHead q items i) :=
  inferInstanceAs (Decidable (∀ entry ∈ q.inMemoryQueue.head?, rowAt items i = [entry.row]))

instance (cfg : Config T) (q : Queue T) (items : List (Entry T)) (i : ℕ) :
    Decidable (AtIndex cfg q items i) :=
  inferInstanceAs
    (Decidable (∀ row ∈ (getRowsOrdered cfg q.table)[i]?, rowAt items i = [row.id]))

instance (cfg : Config T) (q : Queue T) :
    (ok : Bool) → (f : Flush T) → Decidable (InPlaceSettle cfg q ok f)
  | true, .sending i items _ => inferInstanceAs (Decidable (AtHead q items i))
  | false, .sending i items _ => inferInstanceAs (Decidable (AtIndex cfg q items i))
  | _, .idle => .isTrue trivial
  | _, .removed _ _ _ => .isTrue trivial
  | _, .counted _ _ _ => .isTrue trivial
  | _, .judged _ _ _ _ => .isTrue trivial

instance (cfg : Config T) (q : Queue T) : (f : Flush T) → Decidable (InPlaceProceed cfg q f)
  | .counted i items opts => inferInstanceAs
      (Decidable (opts.maxRetries ≤ getAttempts cfg q i → AtIndex cfg q items i))
  | .judged i items opts attempts => inferInstanceAs
      (Decidable (opts.maxRetries ≤ attempts → AtHead q items i))
  | .idle => .isTrue trivial
  | .sending _ _ _ => .isTrue trivial
  | .removed _ _ _ => .isTrue trivial

instance (cfg : Config T) (s : State T) : (e : Event T) → Decidable (InPlace cfg s e)
  | .settle ok => inferInstanceAs (Decidable (InPlaceSettle cfg s.queue ok s.flush))
  | .proceed => inferInstanceAs (Decidable (InPlaceProceed cfg s.queue s.flush))
  | .tick _ => .isTrue trivial
  | .enqueue _ => .isTrue trivial
  | .dequeue => .isTrue trivial
  | .pruneExpired _ => .isTrue trivial
  | .clear => .isTrue trivial
  | .flush _ => .isTrue trivial

/-- One item is sent, the next one fails and is dropped by a second flush;
a third arrives meanwhile. -/
def inPlaceRun : List (Event ℕ) :=
  [.flush ⟨1,true⟩,.settle true,.proceed,.enqueue 11,.settle true,.proceed,.flush ⟨1,true⟩,
    .settle false,.proceed]

theorem no_item_removed_for_another_inPlaceRun :
    Meets (step numberQueue) (InPlace numberQueue) (inPlaceRun++[.proceed])
        (loaded numberQueue numberTable 5) ∧
      MayLeave numberQueue
        (run (step numberQueue) inPlaceRun (loaded numberQueue numberTable 5)) 4 .proceed := by
  have hm : Meets (step numberQueue) (InPlace numberQueue) (inPlaceRun++[.proceed])
      (loaded numberQueue numberTable 5) := by decide +kernel
  have hrun := no_item_removed_for_another numberQueue (by decide) numberTable 5
    numberTable_readable _ hm inPlaceRun (List.prefix_append _ _)
  exact ⟨hm,hrun.2 .proceed List.prefix_rfl 4 (Or.inl (by decide +kernel))⟩

end Iotistica.OfflineQueue
