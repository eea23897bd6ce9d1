import Iotistica.BufferEvictions
import Iotistica.BufferSync

/-!
# Admission to a buffer under pressure

Whatever the policy, a message that is handed to the buffer ends up in the
table or is counted as dropped. A critical message may be refused although
others could make room for it: a single deletion looks at a bounded window
and takes a bounded number of rows, and is not repeated.
-/

set_option autoImplicit false

namespace Iotistica.BufferAdmission
open Iotistica.KeyedTable Iotistica.BufferStore Iotistica.BufferDeletion Iotistica.BufferEvictions
open Iotistica.BufferSync

def messageRow (cfg : BufferSyncConfig) (s : Store) (p : Publish) : MessageBufferRecord :=
  newRow s.metadata.ttlHours (publishRecord cfg p) .queued none none p.now s.table.next

/-- `kept` are the old rows that stay. Each of the others is counted as dropped;
the message has its row, or is counted once more. -/
inductive Accounted (s s' : Store) (row : MessageBufferRecord) : Prop
  | enqueued (kept : List MessageBufferRecord) (hkept : kept.Sublist s.table.rows)
      (hrows : s'.table.rows = kept++[row])
      (hdropped : s'.metadata.totalDropped+kept.length =
        s.metadata.totalDropped+s.table.rows.length)
  | dropped (hkept : s'.table.rows.Sublist s.table.rows)
      (hdropped : s'.metadata.totalDropped+s'.table.rows.length =
        s.metadata.totalDropped+s.table.rows.length+1)

structure Loses (s s' : Store) : Prop where
  rows : s'.table.rows.Sublist s.table.rows
  next : s'.table.next = s.table.next
  ttlHours : s'.metadata.ttlHours = s.metadata.ttlHours
  dropped : s'.metadata.totalDropped+s'.table.rows.length =
    s.metadata.totalDropped+s.table.rows.length

theorem loses_refl (s : Store) : Loses s s := ⟨.refl _,rfl,rfl,rfl⟩

theorem accounted_increment {s s' : Store} (h : Loses s s') (row : MessageBufferRecord) :
    Accounted s (incrementDropped s' 1) row := by
  have hdropped := h.dropped
  refine .dropped h.rows ?_
  change s'.metadata.totalDropped+1+s'.table.rows.length = _
  omega

theorem accounted_enqueue {cfg : BufferSyncConfig} {s s' : Store} {p : Publish} (h : Loses s s') :
    Accounted s (enqueuePublish cfg s' p) (messageRow cfg s p) := by
  obtain ⟨n,hevicts,hmeta⟩ :=
    insertRecord_spec s' (publishRecord cfg p) .queued none none p.now
  obtain ⟨gone,htable,-⟩ := hevicts.removed
  have hcount := hevicts.count
  have hdropped : (enqueuePublish cfg s' p).metadata.totalDropped =
      s'.metadata.totalDropped+n := congrArg Metadata.totalDropped hmeta
  have hrow : newRow s'.metadata.ttlHours (publishRecord cfg p) .queued none none p.now
      s'.table.next = messageRow cfg s p := by
    rw [messageRow, h.ttlHours, h.next]
  have hrows : (enqueuePublish cfg s' p).table.rows =
      s'.table.rows.filter (fun r => !gone r)++[messageRow cfg s p].filter (fun r => !gone r) := by
    have heq : (enqueuePublish cfg s' p).table = _ := htable
    rw [heq, ← hrow, ← List.filter_append]
    rfl
  have hsub : (s'.table.rows.filter (fun r => !gone r)).Sublist s.table.rows :=
    List.filter_sublist.trans h.rows
  have hlen : (enqueuePublish cfg s' p).table.rows.length+n = s'.table.rows.length+1 := by
    rw [← Table.length_insert]
    exact hcount
  have hlose := h.dropped
  rw [hrows, List.length_append] at hlen
  rw [List.filter_singleton] at hrows hlen
  cases hgone : gone (messageRow cfg s p) with
  | false =>
    rw [hgone] at hrows hlen
    refine .enqueued _ hsub hrows ?_
    simp only [Bool.not_false, cond_true, List.length_singleton] at hlen
    omega
  | true =>
    rw [hgone] at hrows hlen
    simp only [Bool.not_true, cond_false, List.append_nil, List.length_nil] at hrows hlen
    refine .dropped (hrows ▸ hsub) ?_
    rw [hrows]
    omega

def wanted (cfg : BufferSyncConfig) (s : Store) : ℕ :=
  (max ((s.table.rows.length-cfg.maxBufferRecords)+1) 100).toNat

def picked (cfg : BufferSyncConfig) (s : Store) : List MessageBufferRecord :=
  ((getQueuedOldest s.table (max (wanted cfg s*3) (wanted cfg s))).filter ordinary).take
    (wanted cfg s)

theorem picked_eq (cfg : BufferSyncConfig) (s : Store) :
    ∃ n ≤ (evictable s.table).length, picked cfg s = (evictable s.table).take n ∧
      (picked cfg s).length = n := by
  obtain ⟨j,hj,hwindow⟩ := window_prefix s.table (max (wanted cfg s*3) (wanted cfg s))
  have hn : min (wanted cfg s) j ≤ (evictable s.table).length := (min_le_right _ _).trans hj
  have heq : picked cfg s = (evictable s.table).take (min (wanted cfg s) j) := by
    rw [picked, hwindow, List.take_take]
  exact ⟨_,hn,heq,by rw [heq, List.length_take, Nat.min_eq_left hn]⟩

theorem deleteOldest_eq (cfg : BufferSyncConfig) (s : Store) :
    deleteOldest s (max ((s.table.rows.length-cfg.maxBufferRecords)+1) 100) true =
      ({ s with table := evicted s.table (picked cfg s).length }.addDropped (picked cfg s).length,
        (picked cfg s).length) := by
  obtain ⟨n,hn,heq,hlen⟩ := picked_eq cfg s
  have hids : pickOldest (wanted cfg s) true
      (getQueuedOldest s.table (max (wanted cfg s*3) (wanted cfg s))) = idsOf (picked cfg s) :=
    pickByCount_eq _ _
  have hpos : ¬max ((s.table.rows.length-cfg.maxBufferRecords)+1) 100 ≤ 0 := by
    have := le_max_right ((s.table.rows.length-cfg.maxBufferRecords : ℤ)+1) 100
    omega
  have hchanges : s.table.changes (idIn (idsOf (picked cfg s))) = (picked cfg s).length := by
    have hdelete := s.table.length_delete (idIn (idsOf (picked cfg s)))
    have hevicted := length_evicted s.table hn
    rw [hlen]
    rw [heq] at hdelete ⊢
    change (evicted s.table n).rows.length+_ = _ at hdelete
    omega
  have hdeleted : s.table.delete (idIn (idsOf (picked cfg s))) =
      evicted s.table (picked cfg s).length := by
    rw [hlen, heq]
    rfl
  unfold deleteOldest
  rw [if_neg hpos]
  simp only
  rw [show (max ((s.table.rows.length-cfg.maxBufferRecords : ℤ)+1) 100).toNat = wanted cfg s
    from rfl, hids, hchanges, hdeleted]
  split
  · rename_i hempty
    have hzero : (picked cfg s).length = 0 := by
      rw [List.isEmpty_iff, idsOf, List.map_eq_nil_iff] at hempty
      rw [hempty]
      rfl
    rw [hzero, evicted_zero]
    rfl
  · rfl

def relieved (cfg : BufferSyncConfig) (s : Store) : Store :=
  { s with table := evicted s.table (picked cfg s).length }.addDropped (picked cfg s).length

theorem loses_relieved (cfg : BufferSyncConfig) (s : Store) : Loses s (relieved cfg s) := by
  obtain ⟨n,hn,-,hlen⟩ := picked_eq cfg s
  have hevicted := length_evicted s.table hn
  refine ⟨List.filter_sublist,rfl,rfl,?_⟩
  change s.metadata.totalDropped+(picked cfg s).length+
    (evicted s.table (picked cfg s).length).rows.length = _
  rw [hlen]
  omega

theorem reject_accounted (cfg : BufferSyncConfig) (s : Store) (p : Publish)
    (row : MessageBufferRecord) : Accounted s (rejectUnderPressure cfg s p).1 row := by
  unfold rejectUnderPressure
  cases cfg.dropPolicy with
  | oldest => exact accounted_increment (loses_refl s) row
  | newest => exact accounted_increment (loses_refl s) row
  | error => exact accounted_increment (loses_refl s) row

theorem applyBackpressurePolicy_oldest {cfg : BufferSyncConfig} (s : Store)
    (h : cfg.dropPolicy = .oldest) :
    applyBackpressurePolicy cfg s s.table.rows.length =
      if 0 < (picked cfg s).length then (relieved cfg s,.buffered)
      else (incrementDropped (relieved cfg s) 1,.rejected) := by
  unfold applyBackpressurePolicy
  rw [h]
  simp only [deleteOldest_eq]
  rfl

theorem handleAdmissionPressure_oldest {cfg : BufferSyncConfig} (s : Store) {p : Publish}
    (hcritical : isCriticalTopic p.topic = true) (hpolicy : cfg.dropPolicy = .oldest) :
    handleAdmissionPressure cfg s p =
      if 0 < (picked cfg s).length ∧ underPressure cfg (relieved cfg s) p.payloadBytes = false then
        (relieved cfg s,.buffered)
      else (incrementDropped (relieved cfg s) 1,.rejected) := by
  have hcount : (canAcceptMessage s p.payloadBytes).currentCount = s.table.rows.length := rfl
  unfold handleAdmissionPressure
  rw [hcritical, hcount, applyBackpressurePolicy_oldest s hpolicy]
  simp only [Bool.not_true, Bool.false_eq_true, if_false]
  by_cases hpos : 0 < (picked cfg s).length
  · cases hpressure : underPressure cfg (relieved cfg s) p.payloadBytes with
    | true => simp [hpos, hpressure]
    | false => simp [hpos, hpressure]
  · simp [hpos]

theorem handleAdmissionPressure_accounted (cfg : BufferSyncConfig) (s : Store) (p : Publish) :
    let admitted := handleAdmissionPressure cfg s p
    if admitted.2 = .buffered then Loses s admitted.1
    else Accounted s admitted.1 (messageRow cfg s p) := by
  cases hcritical : isCriticalTopic p.topic with
  | false =>
    have hadmitted : handleAdmissionPressure cfg s p = rejectUnderPressure cfg s p := by
      unfold handleAdmissionPressure
      rw [hcritical]
      rfl
    have hrejected : (rejectUnderPressure cfg s p).2 ≠ .buffered := by
      unfold rejectUnderPressure
      cases cfg.dropPolicy <;> simp
    simp only [hadmitted, if_neg hrejected]
    exact reject_accounted cfg s p _
  | true =>
    cases hpolicy : cfg.dropPolicy with
    | oldest =>
      rw [handleAdmissionPressure_oldest s hcritical hpolicy]
      split
      · exact loses_relieved cfg s
      · exact accounted_increment (loses_relieved cfg s) _
    | newest =>
      have hadmitted : handleAdmissionPressure cfg s p = (incrementDropped s 1,.rejected) := by
        unfold handleAdmissionPressure applyBackpressurePolicy
        rw [hcritical, hpolicy]
        rfl
      rw [hadmitted]
      exact accounted_increment (loses_refl s) _
    | error =>
      have hadmitted : ∃ message, handleAdmissionPressure cfg s p =
          (incrementDropped s 1,.threw message) := by
        unfold handleAdmissionPressure applyBackpressurePolicy
        rw [hcritical, hpolicy]
        exact ⟨_,rfl⟩
      obtain ⟨message,hadmitted⟩ := hadmitted
      rw [hadmitted]
      exact accounted_increment (loses_refl s) _

theorem handlePublish_accounted (cfg : BufferSyncConfig) (s : Store) (p : Publish)
    (henabled : cfg.enabled = true) (hbuffer : shouldBuffer cfg p = true) :
    Accounted s (handlePublish cfg s p).1 (messageRow cfg s p) := by
  unfold handlePublish
  rw [henabled, hbuffer]
  simp only [Bool.not_true, Bool.false_eq_true, if_false]
  split
  · have hadmitted := handleAdmissionPressure_accounted cfg s p
    simp only at hadmitted
    split at hadmitted
    · rename_i hbuffered
      rw [if_pos hbuffered]
      exact accounted_enqueue hadmitted
    · rename_i hbuffered
      rw [if_neg hbuffered]
      exact hadmitted
  · exact accounted_enqueue (loses_refl s)

/-- Within the limits of both configurations, once the picked rows are gone. -/
def MakesRoom (cfg : BufferSyncConfig) (s : Store) (p : Publish) : Prop :=
  ((s.table.rows.length : ℤ)-(picked cfg s).length+1 ≤ s.metadata.maxRecords) ∧
  ((s.table.rows.length : ℤ)-(picked cfg s).length+1 ≤ cfg.maxBufferRecords) ∧
  (bytesOf s.table.rows : ℤ)-bytesOf (picked cfg s)+p.payloadBytes ≤ s.metadata.maxBytes

/-- A critical message is refused under the policy that drops the oldest only
when no row is left that could have gone in its place. -/
def PriorityKept (cfg : BufferSyncConfig) (s : Store) (p : Publish) : Prop :=
  isCriticalTopic p.topic = true → cfg.dropPolicy = .oldest →
    (handlePublish cfg s p).2 = .rejected →
      ∀ r ∈ (handlePublish cfg s p).1.table.rows,
        ¬(queuedUnlocked r = true ∧ isCriticalRecord r = false)

theorem makesRoom_iff (cfg : BufferSyncConfig) (s : Store) (p : Publish) :
    MakesRoom cfg s p ↔ underPressure cfg (relieved cfg s) p.payloadBytes = false := by
  obtain ⟨n,hn,heq,hlen⟩ := picked_eq cfg s
  have hcount := length_evicted s.table hn
  have hbytes := bytes_evicted s.table n
  rw [← heq] at hbytes
  have hrelieved : (relieved cfg s).table = evicted s.table n := by
    rw [← hlen]
    rfl
  have hmeta : (relieved cfg s).metadata.maxRecords = s.metadata.maxRecords ∧
    (relieved cfg s).metadata.maxBytes = s.metadata.maxBytes := ⟨rfl,rfl⟩
  unfold MakesRoom underPressure canAcceptMessage
  simp only [hrelieved, hmeta.1, hmeta.2, hlen, Bool.or_eq_false_iff, Bool.not_eq_false',
    Bool.and_eq_true, Bool.not_eq_true', decide_eq_false_iff_not]
  omega

theorem picked_of_makesRoom {cfg : BufferSyncConfig} {s : Store} {p : Publish}
    (hpressure : underPressure cfg s p.payloadBytes = true) (hroom : MakesRoom cfg s p) :
    0 < (picked cfg s).length := by
  by_contra hzero
  have hsame : underPressure cfg (relieved cfg s) p.payloadBytes =
      underPressure cfg s p.payloadBytes := by
    have hlen : (picked cfg s).length = 0 := by omega
    unfold relieved
    rw [hlen, evicted_zero]
    rfl
  rw [makesRoom_iff, hsame, hpressure] at hroom
  cases hroom

/-- A critical message under pressure with this policy is refused unless the
picked rows make room. -/
theorem handlePublish_oldest {cfg : BufferSyncConfig} {s : Store} {p : Publish}
    (henabled : cfg.enabled = true) (hbuffer : shouldBuffer cfg p = true)
    (hpressure : underPressure cfg s p.payloadBytes = true)
    (hcritical : isCriticalTopic p.topic = true) (hpolicy : cfg.dropPolicy = .oldest) :
    handlePublish cfg s p ∈ [(enqueuePublish cfg (relieved cfg s) p,Handled.buffered),
      (incrementDropped (relieved cfg s) 1,.rejected)] ∧
    ((handlePublish cfg s p).2 = .rejected ↔ ¬MakesRoom cfg s p) := by
  have hroom := makesRoom_iff cfg s p
  have hpicked := @picked_of_makesRoom cfg s p hpressure
  by_cases hmakes : MakesRoom cfg s p
  · have hadmitted : handleAdmissionPressure cfg s p = (relieved cfg s,.buffered) := by
      rw [handleAdmissionPressure_oldest s hcritical hpolicy,
        if_pos ⟨hpicked hmakes,hroom.mp hmakes⟩]
    have hresult : handlePublish cfg s p = (enqueuePublish cfg (relieved cfg s) p,.buffered) := by
      unfold handlePublish
      simp [henabled, hbuffer, hpressure, hadmitted]
    simp [hresult, hmakes]
  · have hadmitted : handleAdmissionPressure cfg s p =
        (incrementDropped (relieved cfg s) 1,.rejected) := by
      rw [handleAdmissionPressure_oldest s hcritical hpolicy,
        if_neg fun h => hmakes (hroom.mpr h.2)]
    have hresult : handlePublish cfg s p = (incrementDropped (relieved cfg s) 1,.rejected) := by
      unfold handlePublish
      simp [henabled, hbuffer, hpressure, hadmitted]
    simp [hresult, hmakes]

/-- The buffer keeps its account, and keeps the priority of a critical message
exactly when the one deletion that it tries makes room or takes all there is. -/
theorem admission_kept_iff (cfg : BufferSyncConfig) (s : Store) (p : Publish)
    (henabled : cfg.enabled = true) (hbuffer : shouldBuffer cfg p = true) :
    (Accounted s (handlePublish cfg s p).1 (messageRow cfg s p) ∧ PriorityKept cfg s p) ↔
      (isCriticalTopic p.topic = true → cfg.dropPolicy = .oldest →
        underPressure cfg s p.payloadBytes = true →
          picked cfg s = evictable s.table ∨ MakesRoom cfg s p) := by
  obtain ⟨n,hn,heq,hlen⟩ := picked_eq cfg s
  have hleft : evictable (relieved cfg s).table = (evictable s.table).drop n := by
    rw [← evictable_evicted, ← hlen]
    rfl
  constructor
  · intro h hcritical hpolicy hpressure
    obtain ⟨hresult,hrejected⟩ :=
      handlePublish_oldest henabled hbuffer hpressure hcritical hpolicy
    by_contra hnot
    obtain ⟨hsome,hroom⟩ := not_or.mp hnot
    have hkept := h.2 hcritical hpolicy (hrejected.mpr hroom)
    have htable : (handlePublish cfg s p).1.table = (relieved cfg s).table := by
      rcases List.mem_pair.mp hresult with hbuffered | hresult
      · have hsecond := hrejected.mpr hroom
        rw [hbuffered] at hsecond
        cases hsecond
      · rw [hresult]
        rfl
    refine hsome (heq.trans (List.take_of_length_le ?_))
    rw [← List.drop_eq_nil_iff, ← hleft]
    refine List.eq_nil_iff_forall_not_mem.mpr fun r hr => ?_
    obtain ⟨hmem,hmay⟩ := mem_evictable.mp hr
    exact hkept r (htable ▸ hmem) hmay
  · intro h
    refine ⟨handlePublish_accounted cfg s p henabled hbuffer,?_⟩
    intro hcritical hpolicy hrefused r hr hmay
    have hpressure : underPressure cfg s p.payloadBytes = true := by
      by_contra hnone
      rw [Bool.not_eq_true] at hnone
      unfold handlePublish at hrefused
      rw [henabled, hbuffer, hnone] at hrefused
      cases hrefused
    obtain ⟨hresult,hrejected⟩ :=
      handlePublish_oldest henabled hbuffer hpressure hcritical hpolicy
    have hall := (h hcritical hpolicy hpressure).resolve_right (hrejected.mp hrefused)
    rcases List.mem_pair.mp hresult with hbuffered | hresult
    · rw [hbuffered] at hrefused
      cases hrefused
    · rw [hresult] at hr
      have hmem : r ∈ evictable (relieved cfg s).table := mem_evictable.mpr ⟨hr,hmay⟩
      rw [hleft, List.drop_of_length_le (by rw [← hlen, hall])] at hmem
      cases hmem

def fullConfig : BufferSyncConfig where
  enabled := true
  flushBatchSize := 10
  maxRetries := 3
  maxBufferRecords := 1
  dropPolicy := .oldest
  maxFlushPerCycle := 10
  bufferEvenWhenOnline := false
  scopeEndpointName := none
  scopeExcludePrefix := none

def fire (n : ℕ) : Publish :=
  ⟨"alerts/fire",String.ofList (List.replicate n '1'),n,none,none,false,.direct,1000⟩

def oneReading : Store := (enqueue (emptyStore defaultMetadata) reading 0).1

theorem fire_takes_the_place :
    (Accounted oneReading (handlePublish fullConfig oneReading (fire 1)).1
        (messageRow fullConfig oneReading (fire 1)) ∧
      PriorityKept fullConfig oneReading (fire 1)) ↔
      (isCriticalTopic (fire 1).topic = true → fullConfig.dropPolicy = .oldest →
        underPressure fullConfig oneReading (fire 1).payloadBytes = true →
          picked fullConfig oneReading = evictable oneReading.table ∨
            MakesRoom fullConfig oneReading (fire 1)) :=
  admission_kept_iff fullConfig oneReading (fire 1) (by decide) (by decide)

def readingRow (i : ℕ) : MessageBufferRecord where
  id := i+1
  endpointName := "humidity"
  topic := "sensors/humidity"
  qos := 1
  payload := "4"
  msgId := none
  isCritical := 0
  status := .queued
  lockId := none
  lockedAt := none
  payloadBytes := 1
  retryCount := 0
  lastRetryAt := none
  nextRetryAt := none
  lastError := none
  createdAt := i
  expiresAt := 5000

def readings : Store where
  table := ⟨(List.range 101).map readingRow,102,by decide +kernel,by decide +kernel⟩
  metadata := { defaultMetadata with maxBytes := 150 }

def roomyConfig : BufferSyncConfig := { fullConfig with maxBufferRecords := 1000 }

/-- The deletion takes a hundred of them and leaves one byte too many. -/
theorem alarm_refused_beside_reading :
    roomyConfig.enabled = true ∧ shouldBuffer roomyConfig (fire 150) = true ∧
      ¬PriorityKept roomyConfig readings (fire 150) := by
  unfold PriorityKept
  decide +kernel

end Iotistica.BufferAdmission
