import Iotistica.OfflineQueue

/-!
# What a flush removes

A flush removes by position. What is left of its copy is a suffix of the
queue's front as long as items leave in order, so no item is sent twice.
The item removed is the one that was sent, and the attempts read are its
own, exactly while it is still at that position.
-/

set_option autoImplicit false

namespace Iotistica.OfflineQueue
open Iotistica.KeyedTable Iotistica.GuardedRun

variable {T : Type}

def queued (q : Queue T) : List ℕ := q.inMemoryQueue.map Entry.row

def stored (cfg : Config T) (q : Queue T) : List ℕ :=
  (getRowsOrdered cfg q.table).map OfflineQueueRecord.id

def Departs (cfg : Config T) (q q' : Queue T) (r : ℕ) : Prop :=
  (r ∈ queued q ∧ r ∉ queued q') ∨ (r ∈ stored cfg q ∧ r ∉ stored cfg q')

def Expired (cfg : Config T) (s : State T) (ttlMs : Option ℕ) (r : ℕ) : Prop :=
  ∃ row ∈ getRowsOrdered cfg s.queue.table, row.id = r ∧
    ∃ ttl, (ttlMs <|> cfg.ttlMs) = some ttl ∧ row.createdAt < s.now-(ttl : ℕ)

/-- Why an item may leave in a step: it was sent by then, returned, evicted
as the oldest after the prune, expired, or dropped with as many failures of
its own as the flush allows. -/
inductive MayLeave (cfg : Config T) (s : State T) (r : ℕ) : Event T → Prop where
  | sent {e : Event T} : r ∈ (step cfg s e).sent → MayLeave cfg s r e
  | returned : (dequeue cfg s.queue).1.map Entry.row = some r → MayLeave cfg s r .dequeue
  | evicted {item : T} : getOldest cfg (pruneExpired cfg s.queue none s.now).table = some r →
      MayLeave cfg s r (.enqueue item)
  | expiredOnEnqueue {item : T} : Expired cfg s none r → MayLeave cfg s r (.enqueue item)
  | expired {ttlMs : Option ℕ} : Expired cfg s ttlMs r → MayLeave cfg s r (.pruneExpired ttlMs)
  | dropped {i : ℕ} {items : List (Entry T)} {opts : FlushOptions} {attempts : ℕ} :
      s.flush = .judged i items opts attempts → opts.maxRetries ≤ s.failures.count r →
      MayLeave cfg s r .proceed
  | cleared : MayLeave cfg s r .clear

/-- The item in `sendFn` was not sent before. -/
def NotResent (s : State T) : Prop :=
  match s.flush with
  | .sending i items _ => ∀ r ∈ rowAt items i, r ∉ s.sent
  | _ => True

def AtHead (q : Queue T) (items : List (Entry T)) (i : ℕ) : Prop :=
  ∀ entry ∈ q.inMemoryQueue.head?, rowAt items i = [entry.row]

def AtIndex (cfg : Config T) (q : Queue T) (items : List (Entry T)) (i : ℕ) : Prop :=
  ∀ row ∈ (getRowsOrdered cfg q.table)[i]?, rowAt items i = [row.id]

def InPlaceSettle (cfg : Config T) (q : Queue T) (ok : Bool) : Flush T → Prop
  | .sending i items _ => if ok then AtHead q items i else AtIndex cfg q items i
  | _ => True

def InPlaceProceed (cfg : Config T) (q : Queue T) : Flush T → Prop
  | .counted i items opts => opts.maxRetries ≤ getAttempts cfg q i → AtIndex cfg q items i
  | .judged i items opts attempts => opts.maxRetries ≤ attempts → AtHead q items i
  | _ => True

def InPlace (cfg : Config T) (s : State T) : Event T → Prop
  | .settle ok => InPlaceSettle cfg s.queue ok s.flush
  | .proceed => InPlaceProceed cfg s.queue s.flush
  | _ => True

/-- What is left of the copy from position `i` on comes first, then items
that arrived later. -/
def Follows (live copy : List ℕ) (i : ℕ) : Prop :=
  ∃ old newer, live = old++newer ∧ old <:+ copy.drop i ∧ ∀ r ∈ newer, r ∉ copy

theorem Follows.suffix {live live' copy : List ℕ} {i : ℕ} (h : Follows live copy i)
    (hs : live' <:+ live) : Follows live' copy i := by
  obtain ⟨old,newer,rfl,hold,hnew⟩ := h
  obtain ⟨front,hf⟩ := hs
  rcases List.append_eq_append_iff.mp hf with ⟨mid,rfl,rfl⟩ | ⟨mid,rfl,rfl⟩
  · exact ⟨mid,newer,rfl,(List.suffix_append front mid).trans hold,hnew⟩
  · exact ⟨[],live',rfl,List.nil_suffix,fun r hr => hnew r (List.mem_append_right _ hr)⟩

theorem Follows.append {live copy : List ℕ} {i r : ℕ} (h : Follows live copy i) (hr : r ∉ copy) :
    Follows (live++[r]) copy i := by
  obtain ⟨old,newer,rfl,hold,hnew⟩ := h
  refine ⟨old,newer++[r],List.append_assoc _ _ _,hold,?_⟩
  intro a ha
  rcases List.mem_append.mp ha with ha | ha
  · exact hnew a ha
  · rw [List.mem_singleton.mp ha]
    exact hr

theorem tail_suffix_tail {xs ys : List ℕ} (h : xs <:+ ys) : xs.tail <:+ ys.tail := by
  obtain ⟨front,rfl⟩ := h
  cases front with
  | nil => exact List.suffix_refl _
  | cons a front => exact (List.tail_suffix xs).trans (List.suffix_append _ _)

theorem Follows.tail {live copy : List ℕ} {i : ℕ} (h : Follows live copy i) :
    Follows live.tail copy (i+1) := by
  obtain ⟨old,newer,rfl,hold,hnew⟩ := h
  cases old with
  | nil =>
    exact ⟨[],newer.tail,rfl,List.nil_suffix,fun r hr => hnew r (List.mem_of_mem_tail hr)⟩
  | cons a old =>
    have ht := tail_suffix_tail hold
    rw [List.tail_drop] at ht
    exact ⟨old,newer,rfl,ht,hnew⟩

/-- Once the head is gone the item at position `i` is gone too. -/
theorem Follows.not_mem_tail {live copy : List ℕ} {i r : ℕ} (h : Follows live copy i)
    (hn : copy.Nodup) (hr : copy[i]? = some r) : r ∉ live.tail := by
  intro hmem
  obtain ⟨old,newer,he,hold,hnew⟩ := h.tail
  rw [he] at hmem
  rcases List.mem_append.mp hmem with hmem | hmem
  · obtain ⟨hi,hget⟩ := List.getElem?_eq_some_iff.mp hr
    have hsplit : copy.drop i = r::copy.drop (i+1) := by
      rw [List.drop_eq_getElem_cons hi, hget]
    have hnd : (copy.drop i).Nodup := hn.sublist (List.drop_sublist i copy)
    rw [hsplit] at hnd
    exact (List.nodup_cons.mp hnd).1 (hold.subset hmem)
  · exact hnew r hmem (List.mem_of_getElem? hr)

theorem queued_eq_stored {cfg : Config T} {q : Queue T} (h : Mirrors cfg q) :
    stored cfg q = queued q := h.rows

theorem queued_removeFirst (cfg : Config T) (q : Queue T) :
    queued (removeFirst cfg q) = (queued q).tail := List.map_tail

theorem filter_suffix (rows : List OfflineQueueRecord) (cutoff : ℤ)
    (h : rows.Pairwise (fun a b => a.createdAt ≤ b.createdAt)) :
    rows.filter (fun row => !decide (row.createdAt < cutoff)) <:+ rows := by
  induction rows with
  | nil => exact List.suffix_refl _
  | cons row rows ih =>
    have hp := List.pairwise_cons.mp h
    by_cases hrow : row.createdAt < cutoff
    · rw [List.filter_cons, if_neg (by simpa using hrow)]
      exact (ih hp.2).trans (List.suffix_cons row rows)
    · have hall : ∀ r ∈ row::rows, (!decide (r.createdAt < cutoff)) = true := by
        intro r hr
        rcases List.mem_cons.mp hr with rfl | hr
        · simpa using hrow
        · have hle := hp.1 r hr
          simp only [Bool.not_eq_true', decide_eq_false_iff_not]
          omega
      rw [List.filter_eq_self.mpr hall]

theorem stored_pruneExpired (cfg : Config T) (q : Queue T) (ttlMs : Option ℕ) (now : ℤ) :
    (pruneExpired cfg q ttlMs now).table.next = q.table.next ∧
      ((ttlMs <|> cfg.ttlMs) = none ∧
          getRowsOrdered cfg (pruneExpired cfg q ttlMs now).table = getRowsOrdered cfg q.table ∨
        ∃ ttl, (ttlMs <|> cfg.ttlMs) = some ttl ∧
          getRowsOrdered cfg (pruneExpired cfg q ttlMs now).table
            = (getRowsOrdered cfg q.table).filter
              (fun row => !decide (row.createdAt < now-(ttl : ℕ)))) := by
  unfold pruneExpired
  cases httl : (ttlMs <|> cfg.ttlMs) with
  | none => exact ⟨rfl,Or.inl ⟨rfl,rfl⟩⟩
  | some ttl =>
    have hrows := rows_deleteOlder cfg q.table (now-ttl)
    simp only
    split
    · exact ⟨rfl,Or.inr ⟨ttl,rfl,hrows⟩⟩
    · exact ⟨rfl,Or.inr ⟨ttl,rfl,hrows⟩⟩

theorem rows_pruneExpired_suffix (cfg : Config T) (q : Queue T) (ttlMs : Option ℕ) (now : ℤ) :
    getRowsOrdered cfg (pruneExpired cfg q ttlMs now).table <:+ getRowsOrdered cfg q.table := by
  rcases (stored_pruneExpired cfg q ttlMs now).2 with ⟨-,h⟩ | ⟨ttl,-,h⟩
  · rw [h]
  · rw [h]
    exact filter_suffix _ _ (Table.pairwise_selectOrdered q.table _ _)

theorem queued_pruneExpired_suffix {cfg : Config T} {q : Queue T} {now : ℤ}
    (h : Sound cfg q now) (ttlMs : Option ℕ) :
    queued (pruneExpired cfg q ttlMs now) <:+ queued q := by
  have hsuffix := (rows_pruneExpired_suffix cfg q ttlMs now).map OfflineQueueRecord.id
  rw [(h.pruneExpired ttlMs).mirrors.rows, h.mirrors.rows] at hsuffix
  exact hsuffix

theorem expired_of_pruned {cfg : Config T} {s : State T} (h : Sound cfg s.queue s.now)
    {ttlMs : Option ℕ} {r : ℕ} (hr : r ∈ queued s.queue)
    (hgone : r ∉ queued (pruneExpired cfg s.queue ttlMs s.now)) : Expired cfg s ttlMs r := by
  rw [← queued_eq_stored h.mirrors] at hr
  rw [← queued_eq_stored (h.pruneExpired ttlMs).mirrors] at hgone
  obtain ⟨row,hrow,rfl⟩ := List.mem_map.mp hr
  rcases (stored_pruneExpired cfg s.queue ttlMs s.now).2 with ⟨-,he⟩ | ⟨ttl,httl,he⟩
  · exact absurd (List.mem_map_of_mem (he ▸ hrow)) hgone
  · refine ⟨row,hrow,rfl,ttl,httl,?_⟩
    by_contra hyoung
    apply hgone
    apply List.mem_map_of_mem
    rw [he]
    exact List.mem_filter.mpr ⟨hrow,by simpa using hyoung⟩

theorem queued_push {cfg : Config T} (hsize : 1 ≤ cfg.maxSize) (q : Queue T) (item : T) (now : ℤ) :
    queued (push cfg q item now)
        = (if q.inMemoryQueue.length+1 > cfg.maxSize then (queued q).tail else queued q)
          ++[q.table.next] ∧
      (push cfg q item now).table.next = q.table.next+1 := by
  rw [push_eq hsize]
  simp only
  split
  · refine ⟨?_,congrArg (·+1) (next_removeOldest cfg q.table)⟩
    rw [queued, List.map_append, ← queued, queued_removeFirst]
    simp [removeFirst, next_removeOldest]
  · exact ⟨by simp [queued],rfl⟩

theorem queued_lt_next {cfg : Config T} {q : Queue T} (h : Mirrors cfg q) :
    ∀ r ∈ queued q, r < q.table.next := by
  intro r hr
  rw [← queued_eq_stored h] at hr
  obtain ⟨row,hrow,rfl⟩ := List.mem_map.mp hr
  exact q.table.below row ((Table.mem_selectOrdered q.table _ _ row).mp hrow).1

theorem queued_nodup {cfg : Config T} {q : Queue T} (h : Mirrors cfg q) : (queued q).Nodup := by
  rw [← queued_eq_stored h]
  exact nodup_rows cfg q.table

structure Ahead (s : State T) (items : List (Entry T)) (i : ℕ) : Prop where
  follows : Follows (queued s.queue) (items.map Entry.row) i
  distinct : (items.map Entry.row).Nodup
  unsent : ∀ r ∈ (items.map Entry.row).drop i, r ∉ s.sent
  known : ∀ r ∈ items.map Entry.row, r < s.queue.table.next

def FlushAhead (s : State T) : Flush T → Prop
  | .idle => True
  | .sending i items _ => Ahead s items i
  | .removed i items _ => Ahead s items (i+1)
  | .counted i items _ => Ahead s items i
  | .judged i items _ _ => Ahead s items i

structure Aligned (cfg : Config T) (s : State T) : Prop where
  sound : Sound cfg s.queue s.now
  gone : ∀ r ∈ queued s.queue, r ∉ s.sent
  known : ∀ r ∈ s.sent, r < s.queue.table.next
  flush : FlushAhead s s.flush

theorem Ahead.suffix {s s' : State T} {items : List (Entry T)} {i : ℕ} (h : Ahead s items i)
    (hq : queued s'.queue <:+ queued s.queue) (hsent : s'.sent = s.sent)
    (hnext : s.queue.table.next ≤ s'.queue.table.next) : Ahead s' items i := by
  refine ⟨h.follows.suffix hq,h.distinct,?_,fun r hr => (h.known r hr).trans_le hnext⟩
  rw [hsent]
  exact h.unsent

theorem FlushAhead.map {s s' : State T} (f : Flush T) (h : FlushAhead s f)
    (hstep : ∀ items i, Ahead s items i → Ahead s' items i) : FlushAhead s' f := by
  cases f with
  | idle => trivial
  | sending i items opts => exact hstep items i h
  | removed i items opts => exact hstep items (i+1) h
  | counted i items opts => exact hstep items i h
  | judged i items opts attempts => exact hstep items i h

theorem Aligned.suffix {cfg : Config T} {s s' : State T} (h : Aligned cfg s)
    (hsound : Sound cfg s'.queue s'.now) (hq : queued s'.queue <:+ queued s.queue)
    (hsent : s'.sent = s.sent) (hflush : s'.flush = s.flush)
    (hnext : s.queue.table.next ≤ s'.queue.table.next) : Aligned cfg s' := by
  refine ⟨hsound,?_,?_,?_⟩
  · intro r hr
    rw [hsent]
    exact h.gone r (hq.subset hr)
  · intro r hr
    rw [hsent] at hr
    exact (h.known r hr).trans_le hnext
  · rw [hflush]
    exact h.flush.map s.flush (fun items i ha => ha.suffix hq hsent hnext)

theorem enqueue_aligned {cfg : Config T} (hsize : 1 ≤ cfg.maxSize) {s : State T} (item : T)
    (h : Aligned cfg s) : Aligned cfg (step cfg s (.enqueue item)) := by
  have hp := queued_push hsize (pruneExpired cfg s.queue none s.now) item s.now
  have hnext := (stored_pruneExpired cfg s.queue none s.now).1
  have hsuffix : (if (pruneExpired cfg s.queue none s.now).inMemoryQueue.length+1 > cfg.maxSize
      then (queued (pruneExpired cfg s.queue none s.now)).tail
      else queued (pruneExpired cfg s.queue none s.now)) <:+ queued s.queue := by
    have hprune := queued_pruneExpired_suffix h.sound none
    split
    · exact (List.tail_suffix _).trans hprune
    · exact hprune
  rw [hnext] at hp
  have hqueue : queued (step cfg s (.enqueue item)).queue = _ := hp.1
  have hgrow : (step cfg s (.enqueue item)).queue.table.next = s.queue.table.next+1 := hp.2
  refine ⟨(h.sound.pruneExpired none).push hsize item,?_,?_,?_⟩
  · intro r hr hsent
    rw [hqueue] at hr
    rcases List.mem_append.mp hr with hr | hr
    · exact h.gone r (hsuffix.subset hr) hsent
    · rw [List.mem_singleton.mp hr] at hsent
      exact absurd (h.known _ hsent) (Nat.lt_irrefl _)
  · intro r hr
    rw [hgrow]
    exact Nat.lt_succ_of_lt (h.known r hr)
  · apply h.flush.map s.flush
    intro items i ha
    refine ⟨?_,ha.distinct,ha.unsent,?_⟩
    · rw [hqueue]
      apply (ha.follows.suffix hsuffix).append
      intro hmem
      exact absurd (ha.known _ hmem) (Nat.lt_irrefl _)
    · intro r hr
      rw [hgrow]
      exact Nat.lt_succ_of_lt (ha.known r hr)

theorem rowAt_eq (items : List (Entry T)) (i : ℕ) :
    rowAt items i = ((items.map Entry.row)[i]?).toList := by
  rw [rowAt, List.getElem?_map]

theorem mem_rowAt {items : List (Entry T)} {i r : ℕ} (h : r ∈ rowAt items i) :
    (items.map Entry.row)[i]? = some r := by
  rw [rowAt_eq] at h
  simpa using h

theorem settle_aligned {cfg : Config T} {s : State T} {i : ℕ} {items : List (Entry T)}
    {opts : FlushOptions} (ok : Bool) (h : Aligned cfg s) (ha : Ahead s items i) :
    Aligned cfg (settle cfg s i items opts ok) := by
  cases ok with
  | true =>
    have htail := queued_removeFirst cfg s.queue
    have hnext : (removeFirst cfg s.queue).table.next = s.queue.table.next :=
      next_removeOldest cfg s.queue.table
    have hmem : ∀ r ∈ rowAt items i, r ∈ items.map Entry.row :=
      fun r hr => List.mem_of_getElem? (mem_rowAt hr)
    refine ⟨h.sound.removeFirst,?_,?_,?_⟩
    · intro r hr hsent
      have hr' : r ∈ (queued s.queue).tail := htail ▸ hr
      rcases List.mem_append.mp hsent with hsent | hsent
      · exact h.gone r (List.mem_of_mem_tail hr') hsent
      · exact ha.follows.not_mem_tail ha.distinct (mem_rowAt hsent) hr'
    · intro r hr
      show r < (removeFirst cfg s.queue).table.next
      rw [hnext]
      rcases List.mem_append.mp hr with hr | hr
      · exact h.known r hr
      · exact ha.known r (hmem r hr)
    · refine ⟨?_,ha.distinct,?_,?_⟩
      · show Follows (queued (removeFirst cfg s.queue)) _ _
        rw [htail]
        exact ha.follows.tail
      · intro r hr hsent
        have hdrop : r ∈ (items.map Entry.row).drop i := by
          rw [← List.tail_drop] at hr
          exact List.mem_of_mem_tail hr
        rcases List.mem_append.mp hsent with hsent | hsent
        · exact ha.unsent r hdrop hsent
        · obtain ⟨hi,hget⟩ := List.getElem?_eq_some_iff.mp (mem_rowAt hsent)
          have hnd : ((items.map Entry.row).drop i).Nodup :=
            ha.distinct.sublist (List.drop_sublist _ _)
          rw [List.drop_eq_getElem_cons hi, hget] at hnd
          exact (List.nodup_cons.mp hnd).1 hr
      · intro r hr
        show r < (removeFirst cfg s.queue).table.next
        rw [hnext]
        exact ha.known r hr
  | false =>
    have hmem : queued (incrementAttempts cfg s.queue i) = queued s.queue := by
      rw [queued, incrementAttempts_memory, queued]
    have hnext : (incrementAttempts cfg s.queue i).table.next = s.queue.table.next := by
      unfold incrementAttempts
      split <;> rfl
    have hq : queued (incrementAttempts cfg s.queue i) <:+ queued s.queue := by rw [hmem]
    refine ⟨h.sound.incrementAttempts i,?_,?_,?_⟩
    · exact fun r hr => h.gone r (hq.subset hr)
    · exact fun r hr => (h.known r hr).trans_le hnext.ge
    · exact ha.suffix hq rfl hnext.ge

theorem copy_ahead {cfg : Config T} {s : State T} (h : Aligned cfg s) :
    Ahead s s.queue.inMemoryQueue 0 :=
  ⟨⟨queued s.queue,[],(List.append_nil _).symm,List.suffix_refl _,by simp⟩,
    queued_nodup h.sound.mirrors,h.gone,queued_lt_next h.sound.mirrors⟩

theorem sendFrom_aligned {cfg : Config T} {s : State T} {i : ℕ} {items : List (Entry T)}
    (opts : FlushOptions) (h : Aligned cfg s) (ha : Ahead s items i) :
    Aligned cfg (sendFrom s i items opts) := by
  refine ⟨h.sound,h.gone,h.known,?_⟩
  simp only [sendFrom]
  split
  · exact ⟨ha.follows,ha.distinct,ha.unsent,ha.known⟩
  · trivial

theorem proceed_aligned {cfg : Config T} {s : State T} (h : Aligned cfg s) :
    Aligned cfg (proceed cfg s) := by
  have hf := h.flush
  unfold proceed
  split
  · rename_i i items opts hflush
    rw [hflush] at hf
    exact sendFrom_aligned opts h hf
  · rename_i i items opts hflush
    rw [hflush] at hf
    split
    · exact ⟨h.sound,h.gone,h.known,hf.follows,hf.distinct,hf.unsent,hf.known⟩
    · exact ⟨h.sound,h.gone,h.known,trivial⟩
  · rename_i i items opts attempts hflush
    rw [hflush] at hf
    split
    · have htail := queued_removeFirst cfg s.queue
      have hnext : (removeFirst cfg s.queue).table.next = s.queue.table.next :=
        next_removeOldest cfg s.queue.table
      refine ⟨h.sound.removeFirst,?_,?_,?_,hf.distinct,?_,?_⟩
      · intro r hr
        exact h.gone r (List.mem_of_mem_tail (htail ▸ hr))
      · exact fun r hr => (h.known r hr).trans_le hnext.ge
      · show Follows (queued (removeFirst cfg s.queue)) _ _
        rw [htail]
        exact hf.follows.tail
      · intro r hr
        rw [← List.tail_drop] at hr
        exact hf.unsent r (List.mem_of_mem_tail hr)
      · exact fun r hr => (hf.known r hr).trans_le hnext.ge
    · exact ⟨h.sound,h.gone,h.known,trivial⟩
  · exact h

theorem step_aligned {cfg : Config T} (hsize : 1 ≤ cfg.maxSize) (s : State T) (e : Event T)
    (h : Aligned cfg s) : Aligned cfg (step cfg s e) := by
  cases e with
  | tick ms => exact h.suffix (h.sound.later ms) (List.suffix_refl _) rfl rfl le_rfl
  | enqueue item => exact enqueue_aligned hsize item h
  | dequeue =>
    have hq : (step cfg s .dequeue).queue = removeFirst cfg s.queue :=
      dequeue_queue cfg s.queue h.sound.mirrors
    have hnext : (removeFirst cfg s.queue).table.next = s.queue.table.next :=
      next_removeOldest cfg s.queue.table
    apply h.suffix
    · rw [hq]
      exact h.sound.removeFirst
    · rw [hq, queued_removeFirst]
      exact List.tail_suffix _
    · rfl
    · rfl
    · rw [hq]
      exact hnext.ge
  | pruneExpired ttlMs =>
    exact h.suffix (h.sound.pruneExpired ttlMs) (queued_pruneExpired_suffix h.sound ttlMs) rfl rfl
      (stored_pruneExpired cfg s.queue ttlMs s.now).1.ge
  | clear => exact h.suffix Sound.clear List.nil_suffix rfl rfl le_rfl
  | flush opts =>
    simp only [step]
    split
    · exact sendFrom_aligned opts h (copy_ahead h)
    · exact h
  | settle ok =>
    have hf := h.flush
    simp only [step]
    split
    · rename_i i items opts hflush
      rw [hflush] at hf
      exact settle_aligned ok h hf
    · exact h
  | proceed => exact proceed_aligned h

theorem Aligned.notResent {cfg : Config T} {s : State T} (h : Aligned cfg s) : NotResent s := by
  have hf := h.flush
  unfold NotResent
  split
  · rename_i i items opts hflush
    rw [hflush] at hf
    intro r hr
    obtain ⟨hi,hget⟩ := List.getElem?_eq_some_iff.mp (mem_rowAt hr)
    apply hf.unsent r
    rw [List.drop_eq_getElem_cons hi, hget]
    exact List.mem_cons_self
  · trivial

end Iotistica.OfflineQueue
