import Iotistica.IngestionWorker
import Mathlib.Data.Finset.Basic
import Mathlib.Data.List.Basic
import Mathlib.Data.List.Nodup
import Mathlib.Data.Finset.Dedup

/-!
# The tracker of recently processed message IDs

`RecentMessageTracker` holds a set beside an append-only array whose front
is skipped by a moving head. The live elements are those from the head on.
They are the last insertions in order, and the set is theirs. The ghost
logs below record what was inserted and what was evicted.
-/

set_option autoImplicit false

namespace Iotistica

structure RecentMessageTracker (α : Type*) where
  ids : Finset α
  queue : List α
  queueHead : Nat
  maxSize : Nat

namespace RecentMessageTracker

variable {α : Type*}

def new (maxSize : Nat) : RecentMessageTracker α := ⟨∅,[],0,maxSize⟩

def live (t : RecentMessageTracker α) : List α := t.queue.drop t.queueHead

def compact (t : RecentMessageTracker α) : RecentMessageTracker α :=
  if 1024 ≤ t.queueHead ∧ t.queue.length ≤ t.queueHead*2 then
    { t with queue := t.queue.drop t.queueHead, queueHead := 0 }
  else t

def full (t : RecentMessageTracker α) : Prop := t.maxSize < t.queue.length-t.queueHead

instance (t : RecentMessageTracker α) : Decidable t.full :=
  inferInstanceAs (Decidable (t.maxSize < t.queue.length-t.queueHead))

/-- `queue[queueHead++]`, when the size limit is exceeded. -/
def evicted (t : RecentMessageTracker α) : Option α :=
  if t.full then t.queue[t.queueHead]? else none

def gathered (step : RecentMessageTracker α → α → RecentMessageTracker α)
    (f : RecentMessageTracker α → α → List α) : RecentMessageTracker α → List α → List α
  | _, [] => []
  | t, id::ids => f t id++gathered step f (step t id) ids

theorem gathered_append (step : RecentMessageTracker α → α → RecentMessageTracker α)
    (f : RecentMessageTracker α → α → List α) (xs ys : List α) (t : RecentMessageTracker α) :
    gathered step f t (xs++ys)=gathered step f t xs++gathered step f (xs.foldl step t) ys := by
  induction xs generalizing t with
  | nil => rfl
  | cons x xs ih => simp [gathered, ih]

theorem live_length (t : RecentMessageTracker α) : t.live.length=t.queue.length-t.queueHead := by
  simp [live]

theorem live_compact (t : RecentMessageTracker α) : t.compact.live=t.live := by
  unfold compact
  by_cases h : 1024 ≤ t.queueHead ∧ t.queue.length ≤ t.queueHead*2
  · simp [h, live]
  · rw [if_neg h]

theorem ids_compact (t : RecentMessageTracker α) : t.compact.ids=t.ids := by
  unfold compact
  split <;> rfl

theorem maxSize_compact (t : RecentMessageTracker α) : t.compact.maxSize=t.maxSize := by
  unfold compact
  split <;> rfl

theorem full_iff (t : RecentMessageTracker α) : t.full ↔ t.maxSize < t.live.length := by
  rw [live_length]
  rfl

/-- A live element is evicted exactly when the limit is exceeded: the
oldest one. -/
theorem evicted_eq (t : RecentMessageTracker α) :
    t.evicted=if t.maxSize < t.live.length then t.live.head? else none := by
  rw [evicted, live, List.head?_drop]
  exact if_congr t.full_iff rfl rfl

structure Same (s t : RecentMessageTracker α) : Prop where
  ids : s.ids=t.ids
  live : s.live=t.live
  maxSize : s.maxSize=t.maxSize

theorem compact_same (t : RecentMessageTracker α) : t.compact.Same t :=
  ⟨ids_compact t,live_compact t,maxSize_compact t⟩

theorem evicted_same {s t : RecentMessageTracker α} (h : s.Same t) : s.evicted=t.evicted := by
  rw [evicted_eq, evicted_eq, h.live, h.maxSize]

variable [DecidableEq α]

def push (t : RecentMessageTracker α) (id : α) : RecentMessageTracker α :=
  { t with ids := insert id t.ids, queue := t.queue++[id] }

def evict (t : RecentMessageTracker α) : RecentMessageTracker α :=
  if t.full then
    { t with
      ids := match t.evicted with
        | some e => t.ids.erase e
        | none => t.ids
      queueHead := t.queueHead+1 }
  else t

def mark (t : RecentMessageTracker α) (id : α) : RecentMessageTracker α :=
  if id ∈ t.ids then t else (t.push id).evict.compact

def markAll (t : RecentMessageTracker α) (ids : List α) : RecentMessageTracker α :=
  ids.foldl mark t

def run (maxSize : Nat) (calls : List (List α)) : RecentMessageTracker α :=
  calls.foldl markAll (new maxSize)

def record (t : RecentMessageTracker α) (id : α) : RecentMessageTracker α :=
  if id ∈ t.ids then t else (t.push id).evict

def entering (t : RecentMessageTracker α) (id : α) : List α := if id ∈ t.ids then [] else [id]

def leaving (t : RecentMessageTracker α) (id : α) : List α :=
  if id ∈ t.ids then [] else (t.push id).evicted.toList

def inserted (maxSize : Nat) (calls : List (List α)) : List α :=
  gathered mark entering (new maxSize) calls.flatten

def evictions (maxSize : Nat) (calls : List (List α)) : List α :=
  gathered mark leaving (new maxSize) calls.flatten

theorem run_eq (maxSize : Nat) (calls : List (List α)) :
    run maxSize calls=markAll (new maxSize) calls.flatten := by
  unfold run
  generalize (new maxSize : RecentMessageTracker α)=t
  induction calls generalizing t with
  | nil => rfl
  | cons c calls ih => simp [ih, markAll]

structure Windowed (t : RecentMessageTracker α) : Prop where
  head : t.queueHead ≤ t.queue.length
  size : t.live.length ≤ t.maxSize
  nodup : t.live.Nodup
  ids : t.ids=t.live.toFinset

theorem new_windowed (maxSize : Nat) : (new maxSize : RecentMessageTracker α).Windowed := by
  constructor <;> simp [new, live]

theorem compact_windowed {t : RecentMessageTracker α} (h : t.Windowed) : t.compact.Windowed := by
  refine ⟨?_,?_,?_,?_⟩
  · unfold compact
    split
    · simp
    · exact h.head
  · rw [live_compact, maxSize_compact]
    exact h.size
  · rw [live_compact]
    exact h.nodup
  · rw [ids_compact, live_compact]
    exact h.ids

theorem live_push {t : RecentMessageTracker α} (h : t.queueHead ≤ t.queue.length) (id : α) :
    (t.push id).live=t.live++[id] := by
  simp [push, live, List.drop_append_of_le_length h]

theorem live_evict (t : RecentMessageTracker α) :
    t.evict.live=if t.maxSize < t.live.length then t.live.tail else t.live := by
  unfold evict
  by_cases h : t.full
  · rw [if_pos h, if_pos (t.full_iff.mp h)]
    simp [live]
  · rw [if_neg h, if_neg (mt t.full_iff.mpr h)]

theorem ids_evict (t : RecentMessageTracker α) :
    t.evict.ids=t.ids \ t.evicted.toList.toFinset := by
  unfold evict
  by_cases h : t.full
  · rw [if_pos h]
    cases t.evicted <;> simp [Finset.erase_eq]
  · simp [evicted, h]

theorem maxSize_evict (t : RecentMessageTracker α) : t.evict.maxSize=t.maxSize := by
  unfold evict
  split <;> rfl

theorem evict_windowed {t : RecentMessageTracker α} (hh : t.queueHead ≤ t.queue.length)
    (hs : t.live.length ≤ t.maxSize+1) (hn : t.live.Nodup) (hi : t.ids=t.live.toFinset) :
    t.evict.Windowed := by
  refine ⟨?_,?_,?_,?_⟩
  · have hlen : t.queueHead < t.queue.length ∨ ¬ t.full := by
      unfold full
      omega
    unfold evict
    by_cases h : t.full
    · rw [if_pos h]
      exact hlen.resolve_right (not_not_intro h)
    · rw [if_neg h]
      exact hh
  · rw [live_evict, maxSize_evict]
    split
    · rw [List.length_tail]
      omega
    · omega
  · rw [live_evict]
    split
    · exact hn.tail
    · exact hn
  · rw [ids_evict, live_evict, evicted_eq, hi]
    split
    · cases hl : t.live with
      | nil => rfl
      | cons x xs =>
        rw [hl] at hn
        have hx : x ∉ xs := (List.nodup_cons.mp hn).1
        ext y
        by_cases hy : y=x <;> simp [hy, hx]
    · simp

theorem record_windowed {t : RecentMessageTracker α} (h : t.Windowed) (id : α) :
    (t.record id).Windowed := by
  unfold record
  by_cases hid : id ∈ t.ids
  · rw [if_pos hid]
    exact h
  · rw [if_neg hid]
    have hl : (t.push id).live=t.live++[id] := live_push h.head id
    have hnot : id ∉ t.live := by simpa [h.ids] using hid
    apply evict_windowed
    · simp only [push, List.length_append, List.length_singleton]
      have := h.head
      omega
    · rw [hl, List.length_append, List.length_singleton]
      exact Nat.add_le_add_right h.size 1
    · rw [hl]
      exact List.nodup_append.mpr ⟨h.nodup,by simp,by simp; grind⟩
    · rw [hl]
      ext y
      simp only [push, h.ids, Finset.mem_insert, List.mem_toFinset, List.mem_append,
        List.mem_singleton]
      exact or_comm

theorem mark_eq (t : RecentMessageTracker α) (id : α) :
    t.mark id=t.record id ∨ t.mark id=(t.record id).compact := by
  unfold mark record
  split
  · exact .inl rfl
  · exact .inr rfl

theorem mark_windowed {t : RecentMessageTracker α} (h : t.Windowed) (id : α) :
    (t.mark id).Windowed := by
  obtain he | he := mark_eq t id
  · rw [he]
    exact record_windowed h id
  · rw [he]
    exact compact_windowed (record_windowed h id)

theorem live_mark (t : RecentMessageTracker α) (id : α) : (t.mark id).live=(t.record id).live := by
  obtain he | he := mark_eq t id
  · rw [he]
  · rw [he, live_compact]

theorem maxSize_record (t : RecentMessageTracker α) (id : α) : (t.record id).maxSize=t.maxSize := by
  unfold record
  split
  · rfl
  · rw [maxSize_evict]
    rfl

theorem maxSize_mark (t : RecentMessageTracker α) (id : α) : (t.mark id).maxSize=t.maxSize := by
  obtain he | he := mark_eq t id
  · rw [he, maxSize_record]
  · rw [he, maxSize_compact, maxSize_record]

theorem leaving_append {t : RecentMessageTracker α} (h : t.Windowed) (id : α) :
    t.leaving id++(t.mark id).live=t.live++t.entering id := by
  rw [live_mark]
  unfold leaving record entering
  by_cases hid : id ∈ t.ids
  · simp [hid]
  · simp only [if_neg hid]
    rw [live_evict, evicted_eq, live_push h.head]
    split
    · cases t.live <;> simp
    · simp

theorem leaving_full {t : RecentMessageTracker α} (h : t.Windowed) (id : α)
    (hl : t.leaving id ≠ []) : (t.mark id).live.length=t.maxSize := by
  have hid : id ∉ t.ids := fun hid => hl (if_pos hid)
  have hlen := congrArg List.length (leaving_append h id)
  have hmax : (t.push id).maxSize=t.maxSize := rfl
  simp only [leaving, entering, if_neg hid, evicted_eq, live_push h.head, hmax] at hl hlen
  have hover : t.maxSize < (t.live++[id]).length := by
    by_contra hn
    exact hl (by rw [if_neg hn]; rfl)
  have hone : ((t.live++[id]).head?.toList).length=1 := by cases t.live <;> rfl
  rw [if_pos hover] at hlen
  rw [List.length_append, hone] at hlen
  simp only [List.length_append, List.length_singleton] at hlen hover
  have := h.size
  omega

theorem push_same {s t : RecentMessageTracker α} (h : s.Same t)
    (hs : s.queueHead ≤ s.queue.length) (ht : t.queueHead ≤ t.queue.length) (id : α) :
    (s.push id).Same (t.push id) := by
  refine ⟨?_,?_,h.maxSize⟩
  · simp [push, h.ids]
  · rw [live_push hs, live_push ht, h.live]

theorem evict_same {s t : RecentMessageTracker α} (h : s.Same t) : s.evict.Same t.evict := by
  refine ⟨?_,?_,?_⟩
  · rw [ids_evict, ids_evict, h.ids, evicted_same h]
  · rw [live_evict, live_evict, h.live, h.maxSize]
  · rw [maxSize_evict, maxSize_evict, h.maxSize]

theorem leaving_same {s t : RecentMessageTracker α} (h : s.Same t) (hs : s.Windowed)
    (ht : t.Windowed) (id : α) : s.leaving id=t.leaving id := by
  unfold leaving
  rw [h.ids, evicted_same (push_same h hs.head ht.head id)]

theorem mark_same {s t : RecentMessageTracker α} (h : s.Same t) (hs : s.Windowed)
    (ht : t.Windowed) (id : α) : (s.mark id).Same (t.record id) := by
  unfold mark record
  rw [h.ids]
  split
  · exact h
  · have he := evict_same (push_same h hs.head ht.head id)
    have hc := compact_same (s.push id).evict
    exact ⟨hc.ids.trans he.ids,hc.live.trans he.live,hc.maxSize.trans he.maxSize⟩

/-- The log of a run: what left, then what is live, is what was live at
the start and then everything inserted. -/
theorem gathered_window {t : RecentMessageTracker α} (h : t.Windowed) (ids : List α) :
    (t.markAll ids).Windowed ∧ (t.markAll ids).maxSize=t.maxSize ∧
      gathered mark leaving t ids++(t.markAll ids).live=t.live++gathered mark entering t ids ∧
      (gathered mark leaving t ids ≠ [] → (t.markAll ids).live.length=t.maxSize) := by
  induction ids using List.reverseRecOn with
  | nil => simp [markAll, gathered, h]
  | append_singleton ids id ih =>
    obtain ⟨hw,hm,hlog,hfull⟩ := ih
    have hstep : t.markAll (ids++[id])=(t.markAll ids).mark id := by simp [markAll]
    have hfold : ids.foldl mark t=t.markAll ids := rfl
    simp only [gathered_append, hstep, hfold, gathered, List.append_nil]
    refine ⟨mark_windowed hw id,by rw [maxSize_mark, hm],?_,fun hne => ?_⟩
    · rw [List.append_assoc, leaving_append hw id, ← List.append_assoc, hlog, List.append_assoc]
    · by_cases hl : (t.markAll ids).leaving id=[]
      · have hprev : (t.markAll ids).live.length=t.maxSize := hfull (by simpa [hl] using hne)
        -- nothing leaves a full window only when the id is in it already
        have hlen := congrArg List.length (leaving_append hw id)
        have hsize := (mark_windowed hw id).size
        rw [maxSize_mark, hm] at hsize
        simp only [hl, List.length_nil, List.length_append] at hlen
        omega
      · rw [leaving_full hw id hl, hm]

theorem markAll_same {s t : RecentMessageTracker α} (h : s.Same t) (hs : s.Windowed)
    (ht : t.Windowed) (ids : List α) :
    (s.markAll ids).Same (ids.foldl record t) ∧
      gathered mark leaving s ids=gathered record leaving t ids := by
  induction ids generalizing s t with
  | nil => exact ⟨h,rfl⟩
  | cons id ids ih =>
    obtain ⟨hsame,hgone⟩ := ih (mark_same h hs ht id) (mark_windowed hs id) (record_windowed ht id)
    refine ⟨hsame,?_⟩
    rw [gathered, gathered, leaving_same h hs ht id, hgone]

/-- The tracker is a sliding window over its insertions, and it shows what
a tracker that never compacts shows. -/
theorem run_window (maxSize : Nat) (calls : List (List α)) :
    let t := run maxSize calls
    let log := inserted maxSize calls
    let plain := calls.flatten.foldl record (new maxSize)
    t.ids=t.live.toFinset ∧ t.live.Nodup ∧
      t.live=log.drop (log.length-min maxSize log.length) ∧
      evictions maxSize calls=log.take (log.length-min maxSize log.length) ∧
      (t.compact.ids=t.ids ∧ t.compact.live=t.live) ∧
      (∀ id, (t.record id).compact.ids=(t.record id).ids ∧
        (t.record id).compact.live=(t.record id).live) ∧
      t.ids=plain.ids ∧ t.live=plain.live ∧
      evictions maxSize calls=gathered record leaving (new maxSize) calls.flatten := by
  intro t log plain
  obtain ⟨hw,hm,hlog,hfull⟩ := gathered_window (new_windowed maxSize) calls.flatten
  have hsame : (new maxSize : RecentMessageTracker α).Same (new maxSize) := ⟨rfl,rfl,rfl⟩
  obtain ⟨hplain,hgone⟩ :=
    markAll_same hsame (new_windowed maxSize) (new_windowed maxSize) calls.flatten
  rw [← run_eq] at hw hm hlog hfull hplain
  change evictions maxSize calls++t.live=[]++log at hlog
  change evictions maxSize calls ≠ [] → t.live.length=maxSize at hfull
  rw [List.nil_append] at hlog
  have hsize : t.live.length ≤ maxSize := by
    have := hw.size
    rwa [hm] at this
  have hlen : (evictions maxSize calls).length=log.length-min maxSize log.length := by
    have hsum := congrArg List.length hlog
    rw [List.length_append] at hsum
    by_cases hne : evictions maxSize calls=[]
    · rw [hne, List.length_nil] at hsum
      rw [hne, List.length_nil]
      omega
    · have := hfull hne
      omega
  refine ⟨hw.ids,hw.nodup,?_,?_,⟨ids_compact t,live_compact t⟩,
    fun id => ⟨ids_compact _,live_compact _⟩,hplain.ids,hplain.live,hgone⟩
  · rw [← hlen, ← hlog, List.drop_left]
  · rw [← hlen, ← hlog, List.take_left]

theorem mark_worker {t : RecentMessageTracker String} (h : t.Windowed) (id : String) :
    Ingestion.RecentMessageTracker.mark ⟨t.maxSize,t.live⟩ id=
      ⟨(t.mark id).maxSize,(t.mark id).live⟩ := by
  rw [live_mark, maxSize_mark]
  unfold Ingestion.RecentMessageTracker.mark Ingestion.RecentMessageTracker.has record
  simp only [h.ids, List.mem_toFinset, decide_eq_true_eq]
  by_cases hid : id ∈ t.live
  · rw [if_pos hid, if_pos hid]
  · rw [if_neg hid, if_neg hid, live_evict, live_push h.head]
    have hmax : (t.push id).maxSize=t.maxSize := rfl
    rw [hmax]
    split <;> rfl

theorem run_worker (maxSize : Nat) (calls : List (List String)) :
    calls.foldl Ingestion.RecentMessageTracker.markAll ⟨maxSize,[]⟩=
      ⟨maxSize,(run maxSize calls).live⟩ := by
  have hmark : ∀ (ids : List String) (t : RecentMessageTracker String), t.Windowed →
      Ingestion.RecentMessageTracker.markAll ⟨t.maxSize,t.live⟩ ids=
        ⟨(t.markAll ids).maxSize,(t.markAll ids).live⟩ := by
    intro ids
    induction ids with
    | nil => exact fun _ _ => rfl
    | cons id ids ih =>
      intro t ht
      have := ih (t.mark id) (mark_windowed ht id)
      rwa [← mark_worker ht id] at this
  have hcalls : ∀ t : RecentMessageTracker String, t.Windowed →
      calls.foldl Ingestion.RecentMessageTracker.markAll ⟨t.maxSize,t.live⟩=
        ⟨t.maxSize,(calls.foldl markAll t).live⟩ := by
    induction calls with
    | nil => exact fun _ _ => rfl
    | cons ids calls ih =>
      intro t ht
      obtain ⟨hw,hm,-⟩ := gathered_window ht ids
      rw [List.foldl_cons, hmark ids t ht, ih _ hw, hm]
      rfl
  exact hcalls _ (new_windowed maxSize)

end RecentMessageTracker

end Iotistica
