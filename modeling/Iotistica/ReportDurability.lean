import Iotistica.ReportQueue

/-!
# Durability and age of state reports

A report is in the table or in the hands of the flush until its fate is
known, so a crash loses it only in these hands. Its age counts from its row;
it is the age of the report as long as no report put back has outlived the
limit since it was first enqueued.
-/

set_option autoImplicit false

namespace Iotistica.ReportQueue
open Iotistica Iotistica.OfflineQueue Iotistica.GuardedRun

variable {T : Type}

def InTable (cfg : Config T) (s : State T) (r : ℕ) : Prop :=
  ∃ row ∈ getRowsOrdered cfg s.queue.table, s.report row.id = r

def Settled (s : State T) (r : ℕ) : Prop :=
  r ∈ s.sent ∨ r ∈ s.rejected ∨ r ∈ s.expired ∨ r ∈ s.evicted

/-- With no report in the hands of a flush each one is in the table or its
fate is known. -/
def Durable (cfg : Config T) (s : State T) : Prop :=
  s.phase.held = none → ∀ r ∈ s.enqueued, InTable cfg s r ∨ Settled s r

/-- The report in `sendReport` was first enqueued at most the limit before
the prune. -/
def FreshIn (first : ℕ → ℤ) : Phase T → Prop
  | .sending report _ _ prunedAt => prunedAt-first report.row ≤ ttlMs
  | _ => True

def FreshReport (s : State T) : Prop := FreshIn s.first s.phase

def Careful (cfg : Config T) (s : State T) : Event T → Prop
  | .crash _ => s.phase.held = none
  | .flush => s.phase.prunedAt = none → ∀ row ∈ getRowsOrdered cfg s.queue.table,
      s.now-ttlMs ≤ row.createdAt → s.now-ttlMs ≤ s.first row.id
  | _ => True

theorem rows_push {cfg : Config T} (hsize : 1 ≤ cfg.maxSize) {q : Queue T} {now : ℤ}
    (hs : Sound cfg q now) (item : T) :
    getRowsOrdered cfg (push cfg q item now).table
      = (if q.inMemoryQueue.length+1 > cfg.maxSize then (getRowsOrdered cfg q.table).tail
          else getRowsOrdered cfg q.table)++[newRow cfg q.table item now] := by
  rw [push_eq hsize]
  simp only
  split
  · rw [rows_insert cfg _ item now hs.removeFirst.past]
    simp only [removeFirst, rows_removeOldest]
    congr 2
    simp [newRow, next_removeOldest]
  · exact rows_insert cfg q.table item now hs.past

theorem mem_pruned {cfg : Config T} (httl : cfg.ttlMs = some ttlMs) (q : Queue T) (now : ℤ)
    (row : OfflineQueueRecord) :
    row ∈ getRowsOrdered cfg (pruneExpired cfg q none now).table ↔
      row ∈ getRowsOrdered cfg q.table ∧ now-ttlMs ≤ row.createdAt := by
  rcases (stored_pruneExpired cfg q none now).2 with ⟨hnone,-⟩ | ⟨ttl,hsome,hrows⟩
  · rw [httl] at hnone
    cases hnone
  · rw [httl] at hsome
    obtain rfl : ttlMs = ttl := Option.some.inj hsome
    rw [hrows, List.mem_filter]
    simp

theorem row_lt_next {cfg : Config T} {table : Store} {row : OfflineQueueRecord}
    (h : row ∈ getRowsOrdered cfg table) : row.id < table.next :=
  table.below row ((KeyedTable.Table.mem_selectOrdered table _ _ row).mp h).1

structure Intact (cfg : Config T) (s : State T) : Prop where
  queue : Sound cfg s.queue s.now
  known : ∀ e ∈ s.phase.held, e.row < s.queue.table.next
  covered : ∀ r ∈ s.enqueued,
    InTable cfg s r ∨ Settled s r ∨ ∃ e ∈ s.phase.held, s.report e.row = r
  clock : ∀ p ∈ s.phase.prunedAt, p ≤ s.now
  young : ∀ p ∈ s.phase.prunedAt, ∀ row ∈ getRowsOrdered cfg s.queue.table,
    p-ttlMs ≤ s.first row.id
  youngHeld : ∀ p ∈ s.phase.prunedAt, ∀ e ∈ s.phase.held, p-ttlMs ≤ s.first e.row

theorem Intact.durable {cfg : Config T} {s : State T} (h : Intact cfg s) : Durable cfg s := by
  intro hnone r hr
  rcases h.covered r hr with ht | hs | ⟨e,he,-⟩
  · exact Or.inl ht
  · exact Or.inr hs
  · rw [hnone] at he
    cases he

theorem Intact.fresh {cfg : Config T} {s : State T} (h : Intact cfg s) : FreshReport s := by
  have hy := h.youngHeld
  unfold FreshReport
  cases hphase : s.phase with
  | sending report i sentInBatch prunedAt =>
    rw [hphase] at hy
    have hle := hy prunedAt rfl report rfl
    show prunedAt-s.first report.row ≤ ttlMs
    omega
  | idle => trivial
  | taken report i sentInBatch prunedAt => trivial
  | requeued sentInBatch prunedAt => trivial
  | pausing prunedAt => trivial

theorem Intact.rephase {cfg : Config T} {s : State T} {phase : Phase T} (h : Intact cfg s)
    (hheld : phase.held = s.phase.held) (hp : phase.prunedAt = s.phase.prunedAt) :
    Intact cfg { s with phase := phase } := by
  have hk := h.known
  have hc := h.covered
  have hl := h.clock
  have hy := h.young
  have hh := h.youngHeld
  rw [← hheld] at hk hc hh
  rw [← hp] at hl hy hh
  exact ⟨h.queue,hk,hc,hl,hy,hh⟩

theorem Intact.release {cfg : Config T} {s : State T} {phase : Phase T} (h : Intact cfg s)
    (hcovered : ∀ r ∈ s.enqueued, InTable cfg s r ∨ Settled s r)
    (hheld : phase.held = none) (hp : ∀ p ∈ phase.prunedAt, p ∈ s.phase.prunedAt) :
    Intact cfg { s with phase := phase } := by
  refine ⟨h.queue,?_,?_,?_,?_,?_⟩
  · intro e he
    rw [show ({ s with phase := phase } : State T).phase.held = none from hheld] at he
    cases he
  · exact fun r hr => (hcovered r hr).imp id Or.inl
  · exact fun p hpm => h.clock p (hp p hpm)
  · exact fun p hpm => h.young p (hp p hpm)
  · intro p _ e he
    rw [show ({ s with phase := phase } : State T).phase.held = none from hheld] at he
    cases he

theorem endBatch_intact {cfg : Config T} {s : State T} (sentInBatch : ℕ) {prunedAt : ℤ}
    (h : Intact cfg s) (hcovered : ∀ r ∈ s.enqueued, InTable cfg s r ∨ Settled s r)
    (hp : prunedAt ∈ s.phase.prunedAt) : Intact cfg (endBatch s sentInBatch prunedAt) := by
  apply h.release hcovered
  · split <;> rfl
  · intro p hpm
    split at hpm
    · cases hpm
    · rw [← Option.some.inj hpm]
      exact hp

theorem put_rows {cfg : Config T} (hsize : 1 ≤ cfg.maxSize) {s : State T} (item : T) (report : ℕ)
    (first : ℤ) (hs : Sound cfg s.queue s.now) {row : OfflineQueueRecord}
    (hrow : row ∈ getRowsOrdered cfg (put cfg s item report first).queue.table) :
    row ∈ getRowsOrdered cfg s.queue.table ∧ row.id ≠ s.queue.table.next
      ∨ row.id = s.queue.table.next := by
  have hprune := hs.pruneExpired none
  have hnext := (stored_pruneExpired cfg s.queue none s.now).1
  have hsub := (rows_pruneExpired_suffix cfg s.queue none s.now).subset
  rw [show (put cfg s item report first).queue = push cfg (pruneExpired cfg s.queue none s.now) item
    s.now from rfl, rows_push hsize hprune] at hrow
  rcases List.mem_append.mp hrow with hrow | hrow
  · left
    have hold : row ∈ getRowsOrdered cfg s.queue.table := by
      split at hrow
      · exact hsub (List.mem_of_mem_tail hrow)
      · exact hsub hrow
    exact ⟨hold,(row_lt_next hold).ne⟩
  · right
    rw [List.mem_singleton.mp hrow]
    exact hnext

/-- What was in the table still is, or it expired or was evicted; the
report enqueued is in the table. -/
theorem put_inTable {cfg : Config T} (hsize : 1 ≤ cfg.maxSize) (httl : cfg.ttlMs = some ttlMs)
    {s : State T} (item : T) (report : ℕ) (first : ℤ) (hs : Sound cfg s.queue s.now) :
    InTable cfg (put cfg s item report first) report ∧
      ∀ r, InTable cfg s r → InTable cfg (put cfg s item report first) r ∨
        Settled (put cfg s item report first) r := by
  have hprune := hs.pruneExpired none
  have hnext := (stored_pruneExpired cfg s.queue none s.now).1
  have hrows := rows_push hsize hprune item
  constructor
  · refine ⟨newRow cfg (pruneExpired cfg s.queue none s.now).table item s.now,?_,?_⟩
    · show _ ∈ getRowsOrdered cfg (push cfg (pruneExpired cfg s.queue none s.now) item s.now).table
      rw [hrows]
      exact List.mem_append_right _ List.mem_cons_self
    · exact Function.update_self _ _ _
  · rintro r ⟨row,hrow,rfl⟩
    have hkeep : (put cfg s item report first).report row.id = s.report row.id := by
      apply Function.update_of_ne
      rw [hnext]
      exact (row_lt_next hrow).ne
    by_cases hyoung : s.now-ttlMs ≤ row.createdAt
    · have hpruned := (mem_pruned httl s.queue s.now row).mpr ⟨hrow,hyoung⟩
      by_cases hin : row ∈ getRowsOrdered cfg (put cfg s item report first).queue.table
      · exact Or.inl ⟨row,hin,hkeep⟩
      · right; right; right; right
        apply List.mem_append_right
        rw [show (put cfg s item report first).queue
          = push cfg (pruneExpired cfg s.queue none s.now) item s.now from rfl, hrows] at hin
        unfold evicting
        split at hin
        · rename_i hfull
          rw [if_pos hfull]
          cases hq : getRowsOrdered cfg (pruneExpired cfg s.queue none s.now).table with
          | nil => simp [hq] at hpruned
          | cons head rest =>
            rw [hq] at hpruned hin
            rcases List.mem_cons.mp hpruned with rfl | hpruned
            · simp
            · exact absurd (List.mem_append_left _ hpruned) hin
        · exact absurd (List.mem_append_left _ hpruned) hin
    · right; right; right; left
      apply List.mem_append_right
      unfold expiring
      apply List.mem_map.mpr
      refine ⟨row,List.mem_filter.mpr ⟨hrow,?_⟩,rfl⟩
      simp only [decide_eq_true_eq]
      omega

theorem put_settled {cfg : Config T} {s : State T} (item : T) (report : ℕ) (first : ℤ) {r : ℕ}
    (h : Settled s r) : Settled (put cfg s item report first) r := by
  rcases h with h | h | h | h
  · exact Or.inl h
  · exact Or.inr (Or.inl h)
  · exact Or.inr (Or.inr (Or.inl (List.mem_append_left _ h)))
  · exact Or.inr (Or.inr (Or.inr (List.mem_append_left _ h)))

theorem put_sound {cfg : Config T} (hsize : 1 ≤ cfg.maxSize) {s : State T} (item : T)
    (report : ℕ) (first : ℤ) (hs : Sound cfg s.queue s.now) :
    Sound cfg (put cfg s item report first).queue s.now :=
  (hs.pruneExpired none).push hsize item

theorem put_next {cfg : Config T} (hsize : 1 ≤ cfg.maxSize) (s : State T) (item : T)
    (report : ℕ) (first : ℤ) :
    (put cfg s item report first).queue.table.next = s.queue.table.next+1 := by
  have hp := queued_push hsize (pruneExpired cfg s.queue none s.now) item s.now
  rw [(stored_pruneExpired cfg s.queue none s.now).1] at hp
  exact hp.2

theorem put_first {cfg : Config T} {s : State T} (item : T) (report : ℕ) (first : ℤ) (row : ℕ) :
    (put cfg s item report first).first row
      = if row = s.queue.table.next then first else s.first row := by
  unfold put
  simp only [(stored_pruneExpired cfg s.queue none s.now).1]
  exact Function.update_apply _ _ _ _

theorem put_report {cfg : Config T} {s : State T} (item : T) (report : ℕ) (first : ℤ) (row : ℕ) :
    (put cfg s item report first).report row
      = if row = s.queue.table.next then report else s.report row := by
  unfold put
  simp only [(stored_pruneExpired cfg s.queue none s.now).1]
  exact Function.update_apply _ _ _ _

theorem put_young {cfg : Config T} (hsize : 1 ≤ cfg.maxSize) {s : State T} (item : T)
    (report : ℕ) {first p : ℤ} (hs : Sound cfg s.queue s.now) (hfirst : p-ttlMs ≤ first)
    (h : ∀ row ∈ getRowsOrdered cfg s.queue.table, p-ttlMs ≤ s.first row.id) :
    ∀ row ∈ getRowsOrdered cfg (put cfg s item report first).queue.table,
      p-ttlMs ≤ (put cfg s item report first).first row.id := by
  intro row hrow
  rw [put_first]
  rcases put_rows hsize item report first hs hrow with ⟨hold,hne⟩ | he
  · rw [if_neg hne]
    exact h row hold
  · rw [if_pos he]
    exact hfirst

theorem enqueue_intact {cfg : Config T} (hsize : 1 ≤ cfg.maxSize) (httl : cfg.ttlMs = some ttlMs)
    {s : State T} (item : T) (h : Intact cfg s) : Intact cfg (step cfg s (.enqueue item)) := by
  have hput := put_inTable hsize httl item s.queue.table.next s.now h.queue
  have hnext := put_next hsize s item s.queue.table.next s.now
  refine ⟨put_sound hsize item s.queue.table.next s.now h.queue,?_,?_,h.clock,?_,?_⟩
  · intro e he
    show e.row < (put cfg s item s.queue.table.next s.now).queue.table.next
    rw [hnext]
    exact Nat.lt_succ_of_lt (h.known e he)
  · intro r hr
    rcases List.mem_append.mp hr with hr | hr
    · rcases h.covered r hr with ht | hs | ⟨e,he,rfl⟩
      · rcases hput.2 r ht with ht | hs
        · exact Or.inl ht
        · exact Or.inr (Or.inl hs)
      · exact Or.inr (Or.inl (put_settled item s.queue.table.next s.now hs))
      · refine Or.inr (Or.inr ⟨e,he,?_⟩)
        show (put cfg s item s.queue.table.next s.now).report e.row = s.report e.row
        rw [put_report, if_neg (h.known e he).ne]
    · rw [List.mem_singleton.mp hr]
      exact Or.inl hput.1
  · intro p hp
    apply put_young hsize item s.queue.table.next h.queue
    · have hc := h.clock p hp
      have hpos : (0 : ℤ) ≤ ttlMs := Int.natCast_nonneg _
      omega
    · exact h.young p hp
  · intro p hp e he
    show p-ttlMs ≤ (put cfg s item s.queue.table.next s.now).first e.row
    rw [put_first, if_neg (h.known e he).ne]
    exact h.youngHeld p hp e he

theorem taken_intact {cfg : Config T} {s : State T} (i sentInBatch : ℕ) {prunedAt : ℤ}
    (hqueue : Sound cfg s.queue s.now)
    (hcovered : ∀ r ∈ s.enqueued, InTable cfg s r ∨ Settled s r) (hclock : prunedAt ≤ s.now)
    (hyoung : ∀ row ∈ getRowsOrdered cfg s.queue.table, prunedAt-ttlMs ≤ s.first row.id)
    {entry : Entry T} {row : OfflineQueueRecord} {rows : List OfflineQueueRecord}
    (hr : getRowsOrdered cfg s.queue.table = row::rows) (hid : row.id = entry.row) :
    Intact cfg { s with
      queue := removeFirst cfg s.queue
      phase := .taken entry i sentInBatch prunedAt } := by
  have hmem : row ∈ getRowsOrdered cfg s.queue.table := by
    rw [hr]
    exact List.mem_cons_self
  have htail : getRowsOrdered cfg (removeFirst cfg s.queue).table = rows := by
    show getRowsOrdered cfg (removeOldestFromDisk cfg s.queue.table) = rows
    rw [rows_removeOldest, hr, List.tail_cons]
  refine ⟨hqueue.removeFirst,?_,?_,?_,?_,?_⟩
  · intro e he
    obtain rfl := Option.some.inj he
    show entry.row < (removeOldestFromDisk cfg s.queue.table).next
    rw [next_removeOldest, ← hid]
    exact row_lt_next hmem
  · intro r hrr
    rcases hcovered r hrr with ⟨row',hrow',rfl⟩ | hs
    · rw [hr] at hrow'
      rcases List.mem_cons.mp hrow' with rfl | hrow'
      · exact Or.inr (Or.inr ⟨entry,rfl,by rw [← hid]⟩)
      · refine Or.inl ⟨row',?_,rfl⟩
        show row' ∈ getRowsOrdered cfg (removeFirst cfg s.queue).table
        rw [htail]
        exact hrow'
    · exact Or.inr (Or.inl hs)
  · intro p hp
    rwa [← Option.some.inj hp]
  · intro p hp row' hrow'
    rw [← Option.some.inj hp]
    apply hyoung
    rw [hr]
    apply List.mem_cons_of_mem
    rw [← htail]
    exact hrow'
  · intro p hp e he
    obtain rfl := Option.some.inj he
    rw [← Option.some.inj hp]
    show prunedAt-ttlMs ≤ s.first entry.row
    rw [← hid]
    exact hyoung row hmem

theorem takeNext_intact {cfg : Config T} {s : State T} (i sentInBatch : ℕ) {prunedAt : ℤ}
    (hqueue : Sound cfg s.queue s.now)
    (hcovered : ∀ r ∈ s.enqueued, InTable cfg s r ∨ Settled s r) (hclock : prunedAt ≤ s.now)
    (hyoung : ∀ row ∈ getRowsOrdered cfg s.queue.table, prunedAt-ttlMs ≤ s.first row.id) :
    Intact cfg (takeNext cfg s i sentInBatch prunedAt) := by
  have hend : Intact cfg (endBatch s sentInBatch prunedAt) := by
    unfold endBatch
    refine ⟨hqueue,?_,fun r hr => (hcovered r hr).imp id Or.inl,?_,?_,?_⟩
    · intro e he
      split at he <;> cases he
    · intro p hp
      split at hp
      · cases hp
      · rwa [← Option.some.inj hp]
    · intro p hp
      split at hp
      · cases hp
      · rwa [← Option.some.inj hp]
    · intro p _ e he
      split at he <;> cases he
  unfold takeNext
  split
  · cases hq : s.queue.inMemoryQueue with
    | nil =>
      simp only [dequeue, hq]
      exact hend
    | cons entry rest =>
      simp only [dequeue, hq]
      have hids := hqueue.mirrors.rows
      rw [hq, List.map_cons] at hids
      cases hr : getRowsOrdered cfg s.queue.table with
      | nil => simp [hr] at hids
      | cons row rows =>
        rw [hr, List.map_cons, List.cons.injEq] at hids
        exact taken_intact i sentInBatch hqueue hcovered hclock hyoung hr hids.1
  · exact hend

theorem flush_intact {cfg : Config T} (httl : cfg.ttlMs = some ttlMs) {s : State T}
    (hok : Careful cfg s .flush) (h : Intact cfg s) : Intact cfg (flushOfflineQueue cfg s) := by
  unfold flushOfflineQueue
  split
  · rename_i hphase
    have hcov := h.covered
    rw [hphase] at hcov
    simp only [Careful, hphase, Phase.prunedAt] at hok
    split
    · exact h
    · have hcovered : ∀ r ∈ s.enqueued,
          (∃ row ∈ getRowsOrdered cfg (pruneExpired cfg s.queue none s.now).table,
            s.report row.id = r) ∨
          (r ∈ s.sent ∨ r ∈ s.rejected ∨ r ∈ s.expired++expiring cfg s ∨ r ∈ s.evicted) := by
        intro r hr
        rcases hcov r hr with ⟨row,hrow,rfl⟩ | hs | ⟨e,he,-⟩
        · by_cases hyoung : s.now-ttlMs ≤ row.createdAt
          · exact Or.inl ⟨row,(mem_pruned httl s.queue s.now row).mpr ⟨hrow,hyoung⟩,rfl⟩
          · right; right; right; left
            apply List.mem_append_right
            apply List.mem_map.mpr
            refine ⟨row,List.mem_filter.mpr ⟨hrow,?_⟩,rfl⟩
            simp only [decide_eq_true_eq]
            omega
        · right
          rcases hs with hs | hs | hs | hs
          · exact Or.inl hs
          · exact Or.inr (Or.inl hs)
          · exact Or.inr (Or.inr (Or.inl (List.mem_append_left _ hs)))
          · exact Or.inr (Or.inr (Or.inr hs))
        · cases he
      have hyoung : ∀ row ∈ getRowsOrdered cfg (pruneExpired cfg s.queue none s.now).table,
          s.now-ttlMs ≤ s.first row.id := by
        intro row hrow
        have hm := (mem_pruned httl s.queue s.now row).mp hrow
        exact hok trivial row hm.1 hm.2
      simp only
      split
      · refine ⟨h.queue.pruneExpired none,?_,fun r hr => (hcovered r hr).imp id Or.inl,?_,?_,?_⟩ <;>
          simp [hphase, Phase.held, Phase.prunedAt]
      · exact takeNext_intact 0 0 (h.queue.pruneExpired none) hcovered le_rfl hyoung
  · exact h

theorem covered_of_settled {cfg : Config T} {s : State T} (s' : State T) {e : Entry T}
    (h : Intact cfg s) (hheld : s.phase.held = some e) (henq : s'.enqueued = s.enqueued)
    (htable : ∀ r, InTable cfg s r → InTable cfg s' r ∨ Settled s' r)
    (hset : ∀ r, Settled s r → Settled s' r)
    (hdone : InTable cfg s' (s.report e.row) ∨ Settled s' (s.report e.row)) :
    ∀ r ∈ s'.enqueued, InTable cfg s' r ∨ Settled s' r := by
  intro r hr
  rw [henq] at hr
  rcases h.covered r hr with ht | hs | ⟨e',he',rfl⟩
  · exact htable r ht
  · exact Or.inr (hset r hs)
  · rw [hheld] at he'
    obtain rfl := Option.some.inj he'
    exact hdone

theorem settle_intact {cfg : Config T} (hsize : 1 ≤ cfg.maxSize) (httl : cfg.ttlMs = some ttlMs)
    {s : State T} {e : Entry T} {i sentInBatch : ℕ} {prunedAt : ℤ} (outcome : Outcome)
    (hphase : s.phase = .sending e i sentInBatch prunedAt) (h : Intact cfg s) :
    Intact cfg (settle cfg s e i sentInBatch prunedAt outcome) := by
  have hheld : s.phase.held = some e := by rw [hphase]; rfl
  have hp : prunedAt ∈ s.phase.prunedAt := by rw [hphase]; rfl
  cases outcome with
  | sent =>
    apply takeNext_intact
    · exact h.queue
    · apply covered_of_settled { s with sent := s.sent++[s.report e.row] } h hheld rfl
      · exact fun r hr => Or.inl hr
      · exact fun r hr => hr.imp (List.mem_append_left _) id
      · exact Or.inr (Or.inl (List.mem_append_right _ List.mem_cons_self))
    · exact h.clock prunedAt hp
    · exact h.young prunedAt hp
  | nonRetryable =>
    have hrej : Intact cfg { s with rejected := s.rejected++[s.report e.row] } := by
      refine ⟨h.queue,h.known,?_,h.clock,h.young,h.youngHeld⟩
      intro r hr
      rcases h.covered r hr with ht | hs | hh
      · exact Or.inl ht
      · exact Or.inr (Or.inl (hs.imp id (Or.imp_left (List.mem_append_left _))))
      · exact Or.inr (Or.inr hh)
    apply endBatch_intact sentInBatch hrej ?_ hp
    apply covered_of_settled { s with rejected := s.rejected++[s.report e.row] } h hheld rfl
    · exact fun r hr => Or.inl hr
    · exact fun r hr => hr.imp id (Or.imp_left (List.mem_append_left _))
    · exact Or.inr (Or.inr (Or.inl (List.mem_append_right _ List.mem_cons_self)))
  | retryable =>
    have hput := put_inTable hsize httl e.item (s.report e.row) (s.first e.row) h.queue
    have hcov : ∀ r ∈ (put cfg s e.item (s.report e.row) (s.first e.row)).enqueued,
        InTable cfg (put cfg s e.item (s.report e.row) (s.first e.row)) r ∨
          Settled (put cfg s e.item (s.report e.row) (s.first e.row)) r := by
      apply covered_of_settled (put cfg s e.item (s.report e.row) (s.first e.row)) h hheld rfl hput.2
      · exact fun r hr => put_settled e.item _ _ hr
      · exact Or.inl hput.1
    refine ⟨put_sound hsize e.item (s.report e.row) (s.first e.row) h.queue,?_,
      fun r hr => (hcov r hr).imp id Or.inl,?_,?_,?_⟩
    · intro e' he'
      cases he'
    · intro p hpm
      rw [← Option.some.inj hpm]
      exact h.clock prunedAt hp
    · intro p hpm
      rw [← Option.some.inj hpm]
      exact put_young hsize e.item (s.report e.row) h.queue (h.youngHeld prunedAt hp e hheld)
        (h.young prunedAt hp)
    · intro p _ e' he'
      cases he'

theorem proceed_intact {cfg : Config T} {s : State T} (h : Intact cfg s) :
    Intact cfg (step cfg s .proceed) := by
  have hdurable := h.durable
  simp only [step]
  split
  · rename_i e i sentInBatch prunedAt hphase
    have hheld : s.phase.held = some e := by rw [hphase]; rfl
    have hp : s.phase.prunedAt = some prunedAt := by rw [hphase]; rfl
    exact h.rephase hheld.symm hp.symm
  · rename_i sentInBatch prunedAt hphase
    apply endBatch_intact sentInBatch h
    · exact hdurable (by rw [hphase]; rfl)
    · rw [hphase]
      rfl
  · rename_i prunedAt hphase
    have hp : prunedAt ∈ s.phase.prunedAt := by rw [hphase]; rfl
    exact takeNext_intact 0 0 h.queue (hdurable (by rw [hphase]; rfl)) (h.clock prunedAt hp)
      (h.young prunedAt hp)
  · exact h

theorem crash_intact {cfg : Config T} {s : State T} (downtime : ℕ)
    (hok : Careful cfg s (.crash downtime)) (h : Intact cfg s) :
    Intact cfg (step cfg s (.crash downtime)) := by
  have hdurable := h.durable hok
  have hload : loadFromDisk cfg s.queue.table = s.queue := loadFromDisk_eq h.queue.mirrors
  simp only [step, hload]
  refine ⟨h.queue.later downtime,?_,fun r hr => (hdurable r hr).imp id Or.inl,?_,?_,?_⟩ <;>
    simp [Phase.held, Phase.prunedAt]

theorem step_intact {cfg : Config T} (hsize : 1 ≤ cfg.maxSize) (httl : cfg.ttlMs = some ttlMs)
    (s : State T) (e : Event T) (hok : Careful cfg s e) (h : Intact cfg s) :
    Intact cfg (step cfg s e) := by
  cases e with
  | tick ms =>
    refine ⟨h.queue.later ms,h.known,h.covered,?_,h.young,h.youngHeld⟩
    intro p hp
    have hc := h.clock p hp
    show p ≤ s.now+ms
    omega
  | enqueue item => exact enqueue_intact hsize httl item h
  | flush => exact flush_intact httl hok h
  | proceed => exact proceed_intact h
  | settle outcome =>
    simp only [step]
    split
    · rename_i e i sentInBatch prunedAt hphase
      exact settle_intact hsize httl outcome hphase h
    · exact h
  | crash downtime => exact crash_intact downtime hok h

theorem opened_intact {cfg : Config T} {table : Store} {now : ℤ} (h : Readable cfg table now) :
    Intact cfg (opened cfg table now) := by
  have hs : Sound cfg (opened cfg table now).queue now := loaded_sound h
  refine ⟨hs,?_,?_,?_,?_,?_⟩
  · simp [opened, Phase.held]
  · intro r hr
    obtain ⟨row,hrow,rfl⟩ := List.mem_map.mp hr
    exact Or.inl ⟨row,hrow,rfl⟩
  · simp [opened, Phase.prunedAt]
  · simp [opened, Phase.prunedAt]
  · simp [opened, Phase.prunedAt]

theorem reports_durable_and_fresh (codec : Codec T) (table : Store) (now : ℤ)
    (hread : Readable (reportQueue codec) table now) (es : List (Event T))
    (h : Meets (step (reportQueue codec)) (Careful (reportQueue codec)) es
      (opened (reportQueue codec) table now)) :
    ∀ pre, pre <+: es →
      Durable (reportQueue codec)
          (run (step (reportQueue codec)) pre (opened (reportQueue codec) table now)) ∧
        FreshReport (run (step (reportQueue codec)) pre (opened (reportQueue codec) table now)) := by
  rintro pre ⟨post,rfl⟩
  rw [meets_append] at h
  have hi : Intact (reportQueue codec)
      (run (step (reportQueue codec)) pre (opened (reportQueue codec) table now)) :=
    run_invariant (fun s e hok hi => step_intact (Nat.le_add_left 1 999) rfl s e hok hi) pre _ h.1
      (opened_intact hread)
  exact ⟨hi.durable,hi.fresh⟩

section Decide
variable [DecidableEq T]

instance (cfg : Config T) (s : State T) : Decidable (Durable cfg s) :=
  inferInstanceAs (Decidable (s.phase.held = none → ∀ r ∈ s.enqueued,
    (∃ row ∈ getRowsOrdered cfg s.queue.table, s.report row.id = r) ∨
      (r ∈ s.sent ∨ r ∈ s.rejected ∨ r ∈ s.expired ∨ r ∈ s.evicted)))

instance (first : ℕ → ℤ) : (phase : Phase T) → Decidable (FreshIn first phase)
  | .sending report _ _ prunedAt => inferInstanceAs (Decidable (prunedAt-first report.row ≤ ttlMs))
  | .idle => .isTrue trivial
  | .taken _ _ _ _ => .isTrue trivial
  | .requeued _ _ => .isTrue trivial
  | .pausing _ => .isTrue trivial

instance (s : State T) : Decidable (FreshReport s) :=
  inferInstanceAs (Decidable (FreshIn s.first s.phase))

instance (cfg : Config T) (s : State T) : (e : Event T) → Decidable (Careful cfg s e)
  | .crash _ => inferInstanceAs (Decidable (s.phase.held = none))
  | .flush => inferInstanceAs (Decidable (s.phase.prunedAt = none →
      ∀ row ∈ getRowsOrdered cfg s.queue.table,
        s.now-ttlMs ≤ row.createdAt → s.now-ttlMs ≤ s.first row.id))
  | .tick _ => .isTrue trivial
  | .enqueue _ => .isTrue trivial
  | .proceed => .isTrue trivial
  | .settle _ => .isTrue trivial

end Decide

def numberReports : Config ℕ := reportQueue numberCodec

def noReports : State ℕ := opened numberReports KeyedTable.Table.empty 0

def lostRun : List (Event ℕ) := [.enqueue 7,.flush,.proceed,.crash 10]

def staleRun : List (Event ℕ) :=
  [.enqueue 7,.tick 3600000,.flush,.proceed,.settle .retryable,.proceed,.tick 5400000,.flush,
    .proceed]

theorem report_lost_and_stale :
    (¬∀ pre, pre <+: lostRun → Durable numberReports (run (step numberReports) pre noReports)) ∧
      ¬∀ pre, pre <+: staleRun → FreshReport (run (step numberReports) pre noReports) := by
  constructor
  · intro h
    exact absurd (h lostRun List.prefix_rfl) (by decide +kernel)
  · intro h
    exact absurd (h staleRun List.prefix_rfl) (by decide +kernel)

/-- A report is put back and sent within the limit, another one is
rejected, and the process crashes between two flushes. -/
def carefulRun : List (Event ℕ) :=
  [.enqueue 7,.flush,.proceed,.settle .retryable,.proceed,.tick 3600000,.enqueue 8,.crash 5,.flush,
    .proceed,.settle .sent,.proceed,.settle .nonRetryable,.enqueue 9,.tick 8000000,.flush,.enqueue 10]

theorem reports_durable_and_fresh_carefulRun :
    Meets (step numberReports) (Careful numberReports) carefulRun noReports ∧
      Durable numberReports (run (step numberReports) carefulRun noReports) ∧
        FreshReport (run (step numberReports) carefulRun noReports) := by
  have hm : Meets (step numberReports) (Careful numberReports) carefulRun noReports := by
    decide +kernel
  have hread : Readable numberReports KeyedTable.Table.empty 0 := by
    constructor <;> decide +kernel
  exact ⟨hm,reports_durable_and_fresh numberCodec KeyedTable.Table.empty 0 hread carefulRun hm
    carefulRun List.prefix_rfl⟩

end Iotistica.ReportQueue
