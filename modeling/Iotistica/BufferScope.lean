import Iotistica.BufferFlush

/-!
# Two instances on one store

A destination instance owns the records named `ext-dest-N`, the main
instance those that do not begin with `ext-dest-`. A flush stays inside its
own scope. A publish only adds a row, unless a critical topic meets a full
buffer: the deletion that then makes room looks at the whole table, and it
spares the other instance exactly when none of the records it picks belongs
to that one. The scope filter of the main instance folds the case of
letters, which costs it every name that begins with `ext-dest-` in another
case.
-/

set_option autoImplicit false

namespace Iotistica.BufferScope
open Iotistica.KeyedTable Iotistica.GuardedRun Iotistica.JsText Iotistica.BufferStore
open Iotistica.BufferDeletion Iotistica.BufferLocking Iotistica.BufferSync Iotistica.BufferFlush

inductive Side where
  | destination
  | main
  deriving DecidableEq, Repr

def Side.other : Side → Side
  | .destination => .main
  | .main => .destination

def Side.config (n : String) (cfg : BufferSyncConfig) : Side → BufferSyncConfig
  | .destination =>
    { cfg with scopeEndpointName := some ("ext-dest-"++n), scopeExcludePrefix := none }
  | .main => { cfg with scopeEndpointName := none, scopeExcludePrefix := some "ext-dest-" }

def Side.owns (n : String) : Side → String → Bool
  | .destination, name => name == "ext-dest-"++n
  | .main, name => !startsWith name "ext-dest-"

inductive Event where
  | publish (p : Publish)
  | flush (connected : Bool) (mode : PublishMode) (cycles : ℕ → Cycle)

def step (cfg : BufferSyncConfig) (s : Store) : Event → Store
  | .publish p => (handlePublish cfg s p).1
  | .flush connected mode cycles => (flushBuffer cfg connected mode cycles s).store

def WithinQuotas (s : Store) : Prop :=
  (s.table.rows.length : ℤ) ≤ s.metadata.maxRecords ∧
    (bytesOf s.table.rows : ℤ) ≤ s.metadata.maxBytes

instance (s : Store) : Decidable (WithinQuotas s) :=
  inferInstanceAs (Decidable (_ ∧ _))

def inserted (cfg : BufferSyncConfig) (s : Store) (p : Publish) : Store :=
  { s with table := s.table.insert (newRow s.metadata.ttlHours (publishRecord cfg p) .queued none
      none p.now) (newRow_id _ _ _ _ _ _) }

theorem enforceQuotas_within (s : Store) (h : WithinQuotas s) :
    (enforceQuotas s).table = s.table := by
  obtain ⟨hr,hb⟩ := h
  simp [enforceQuotas, enforceRecords, enforceBytes, Store.addDropped, Int.not_lt.mpr hr,
    Int.not_lt.mpr hb]

theorem enqueuePublish_within (cfg : BufferSyncConfig) (s : Store) (p : Publish)
    (h : WithinQuotas (inserted cfg s p)) :
    (enqueuePublish cfg s p).table = (inserted cfg s p).table :=
  enforceQuotas_within ((inserted cfg s p).addBuffered 1) h

/-- The ids that make room for a critical message: the oldest queued
records that are not critical, whichever instance they belong to. -/
def victims (cfg : BufferSyncConfig) (s : Store) : List ℕ :=
  let n := (max ((s.table.rows.length-cfg.maxBufferRecords)+1) 100).toNat
  pickOldest n true (getQueuedOldest s.table (max (n*3) n))

def Pressed (cfg : BufferSyncConfig) (s : Store) (p : Publish) : Prop :=
  cfg.enabled = true ∧ shouldBuffer cfg p = true ∧ underPressure cfg s p.payloadBytes = true ∧
    isCriticalTopic p.topic = true

instance (cfg : BufferSyncConfig) (s : Store) (p : Publish) : Decidable (Pressed cfg s p) :=
  inferInstanceAs (Decidable (_ ∧ _))

variable {cfg : BufferSyncConfig}

theorem deleteOldest_table (s : Store) (limit : ℤ) (hl : 0 < limit) :
    (deleteOldest s limit true).1.table = s.table.delete (idIn (pickOldest limit.toNat true
      (getQueuedOldest s.table (max (limit.toNat*3) limit.toNat)))) := by
  simp only [deleteOldest, Int.not_le.mpr hl, if_false]
  split
  · rename_i he
    rw [List.isEmpty_iff.mp he]
    exact Table.ext_rows (by simp [Table.delete, idIn]) rfl
  · rfl

theorem incrementDropped_table (s : Store) (amount : ℤ) :
    (incrementDropped s amount).table = s.table := by
  unfold incrementDropped
  split <;> rfl

theorem applyBackpressurePolicy_table (hd : cfg.dropPolicy = .oldest) (s : Store) :
    (applyBackpressurePolicy cfg s s.table.rows.length).1.table =
      s.table.delete (idIn (victims cfg s)) := by
  have h := deleteOldest_table s (max ((s.table.rows.length-cfg.maxBufferRecords)+1) 100)
    (by omega)
  simp only [applyBackpressurePolicy, hd]
  split
  · exact h
  · rw [incrementDropped_table]
    exact h

theorem handleAdmissionPressure_table (hd : cfg.dropPolicy = .oldest) (s : Store) (p : Publish) :
    (handleAdmissionPressure cfg s p).1.table =
      if isCriticalTopic p.topic then s.table.delete (idIn (victims cfg s)) else s.table := by
  unfold handleAdmissionPressure
  by_cases hc : isCriticalTopic p.topic = true
  · have h := applyBackpressurePolicy_table hd s
    simp only [hc, Bool.not_true, Bool.false_eq_true, if_false, if_true]
    split
    · split
      · rw [incrementDropped_table]
        exact h
      · exact h
    · exact h
  · simp [hc, rejectUnderPressure, hd, incrementDropped_table]

def admitted (cfg : BufferSyncConfig) (s : Store) (p : Publish) : Store × Handled :=
  if underPressure cfg s p.payloadBytes then handleAdmissionPressure cfg s p else (s,.buffered)

theorem handlePublish_eq (s : Store) (p : Publish) (he : cfg.enabled = true)
    (hb : shouldBuffer cfg p = true) :
    (handlePublish cfg s p).1 = if (admitted cfg s p).2 = .buffered
      then enqueuePublish cfg (admitted cfg s p).1 p else (admitted cfg s p).1 := by
  unfold handlePublish admitted
  by_cases hp : underPressure cfg s p.payloadBytes = true
  · simp only [he, hb, hp, Bool.not_true, Bool.false_eq_true, if_false, if_true]
    split <;> rfl
  · simp [he, hb, hp]

/-- The quotas hold when the row of a publish is inserted, and flushes draw
lock ids that no row carries. -/
def Regular (cfg : BufferSyncConfig) (s : Store) : Event → Prop
  | .publish p => cfg.enabled = true → shouldBuffer cfg p = true →
      (admitted cfg s p).2 = .buffered → WithinQuotas (inserted cfg (admitted cfg s p).1 p)
  | .flush _ _ cycles => ∀ k, FreshLock (cycles k).lockId s

theorem admitted_table (hd : cfg.dropPolicy = .oldest) (s : Store) (p : Publish)
    (he : cfg.enabled = true) (hb : shouldBuffer cfg p = true) :
    (admitted cfg s p).1.table =
      if Pressed cfg s p then s.table.delete (idIn (victims cfg s)) else s.table := by
  unfold admitted Pressed
  split
  · rename_i hp
    simp [handleAdmissionPressure_table hd, he, hb, hp]
  · rename_i hp
    simp [hp]

theorem mem_handlePublish (hd : cfg.dropPolicy = .oldest) (s : Store) (p : Publish)
    (hq : Regular cfg s (.publish p)) (r : MessageBufferRecord) (hr : r ∈ s.table.rows) :
    r ∈ (handlePublish cfg s p).1.table.rows ↔ (Pressed cfg s p → r.id ∉ victims cfg s) := by
  by_cases he : cfg.enabled = true
  · by_cases hb : shouldBuffer cfg p = true
    · have ht := admitted_table hd s p he hb
      have hmem : r ∈ (admitted cfg s p).1.table.rows ↔
          (Pressed cfg s p → r.id ∉ victims cfg s) := by
        rw [ht]
        split
        · rename_i hp
          simp [hr, hp, idIn]
        · rename_i hp
          simp [hr, hp]
      have hnext : (admitted cfg s p).1.table.next = s.table.next := by
        rw [ht]
        split <;> rfl
      rw [handlePublish_eq s p he hb, ← hmem]
      split
      · rename_i hok
        rw [enqueuePublish_within cfg _ p (hq he hb hok)]
        simp only [inserted, Table.mem_insert, or_iff_left_iff_imp]
        intro hnew
        -- the new row carries an id that the table has never issued
        have hlt := s.table.below r hr
        rw [hnew, newRow_id, hnext] at hlt
        exact absurd hlt (lt_irrefl _)
      · rfl
    · simp [handlePublish, Pressed, he, hb, hr]
  · simp [handlePublish, Pressed, he, hr]

theorem pass_outside {maxRetries : ℕ} {scope : Scope} {c : Cycle}
    {records : List MessageBufferRecord} {s s' : Store}
    (hp : Pass maxRetries scope c records s s') (hf : FreshLock c.lockId s)
    (r : MessageBufferRecord) (hr : r ∈ s.table.rows) (ho : inScope scope r.endpointName = false) :
    r ∈ s'.table.rows := by
  have hout : ∀ a ∈ records, a.id ≠ r.id := by
    intro a ha he
    obtain ⟨_,b,hb,hid,_,hs⟩ := hp.handed hf a ha
    obtain rfl := s.table.key_unique hb hr (hid.trans he)
    rw [ho] at hs
    cases hs
  rcases hp.kept r hr with ⟨r',hr',he⟩ | hs | hd
  · obtain ⟨b,hb,hid,h⟩ := hp.origin r' hr'
    obtain rfl := s.table.key_unique hb hr (hid.trans he)
    rcases h with ⟨_,rfl,_⟩ | ⟨hin,_⟩
    · exact hr'
    · obtain ⟨a,ha,_,hid⟩ := mem_failedIds.mp hin
      exact absurd hid (hout a ha)
  · obtain ⟨a,ha,_,hid⟩ := mem_successfulIds.mp hs
    exact absurd hid (hout a ha)
  · obtain ⟨a,ha,_,hid⟩ := mem_droppedIds.mp hd
    exact absurd hid (hout a ha)

theorem flushLoop_outside (cycles : ℕ → Cycle) (fuel k handled : ℕ) (s : Store)
    (hf : ∀ k, FreshLock (cycles k).lockId s) (r : MessageBufferRecord) (hr : r ∈ s.table.rows)
    (ho : inScope cfg.scope r.endpointName = false) :
    r ∈ (flushLoop cfg cycles fuel k handled s).store.table.rows := by
  induction fuel generalizing k handled s with
  | zero => exact hr
  | succ fuel ih =>
    rcases flushLoop_cases cfg cycles fuel k handled s with ⟨e,_,he⟩ | ⟨rs,s1,hp,_,_,he⟩
    · rw [he]
      exact hr
    · rw [he]
      exact ih _ _ s1 (fun k => pass_freshLock hp (hf k)) (pass_outside hp (hf k) r hr ho)

theorem flushBuffer_outside (connected : Bool) (mode : PublishMode) (cycles : ℕ → Cycle)
    (s : Store) (hf : ∀ k, FreshLock (cycles k).lockId s) (r : MessageBufferRecord)
    (hr : r ∈ s.table.rows) (ho : inScope cfg.scope r.endpointName = false) :
    r ∈ (flushBuffer cfg connected mode cycles s).store.table.rows := by
  unfold flushBuffer
  split_ifs
  · exact hr
  · exact hr
  · exact flushLoop_outside cycles _ _ _ s hf r hr ho

theorem inScope_destination (n : String) (c : BufferSyncConfig) (name : String) :
    inScope (Side.destination.config n c).scope name = Side.destination.owns n name := by
  simp [inScope, Side.config, BufferSyncConfig.scope, scopeExcludePattern, Side.owns]

theorem inScope_main (n : String) (c : BufferSyncConfig) (name : String) :
    inScope (Side.main.config n c).scope name = true ↔
      ¬"ext-dest-".toList.map Char.toLower <+: name.toList.map Char.toLower := by
  rw [← like_iff name "ext-dest-" (by simp)]
  simp [inScope, Side.config, BufferSyncConfig.scope, scopeExcludePattern]

theorem destination_prefixed (n : String) : startsWith ("ext-dest-"++n) "ext-dest-" = true := by
  rw [startsWith_iff]
  simp

theorem begins_of_startsWith {name : String} (h : startsWith name "ext-dest-" = true) :
    "ext-dest-".toList.map Char.toLower <+: name.toList.map Char.toLower :=
  ((startsWith_iff name "ext-dest-").mp h).map Char.toLower

theorem other_outside (n : String) (side : Side) (c : BufferSyncConfig) (name : String)
    (h : side.other.owns n name = true) : inScope (side.config n c).scope name = false := by
  cases side with
  | destination =>
    rw [inScope_destination]
    simp only [Side.other, Side.owns, Bool.not_eq_true'] at *
    by_contra hne
    obtain rfl : name = "ext-dest-"++n := by simpa using hne
    rw [destination_prefixed] at h
    cases h
  | main =>
    obtain rfl : name = "ext-dest-"++n := by simpa [Side.other, Side.owns] using h
    by_contra hne
    exact (inScope_main n c _).mp (by simpa using hne)
      (begins_of_startsWith (destination_prefixed n))

/-- The step leaves every record of the other instance as it is: none is
claimed, retried or deleted. -/
def Untouched (n : String) (side : Side) (cfg : BufferSyncConfig) (s : Store) (e : Event) : Prop :=
  ∀ r ∈ s.table.rows, side.other.owns n r.endpointName = true → r ∈ (step cfg s e).table.rows

/-- No record of the other instance is among those that make room for a
critical message. -/
def Spares (n : String) (side : Side) (cfg : BufferSyncConfig) (s : Store) : Event → Prop
  | .publish p => Pressed cfg s p →
      ∀ r ∈ s.table.rows, r.id ∈ victims cfg s → side.other.owns n r.endpointName = false
  | .flush .. => True

theorem untouched_iff_spares (n : String) (side : Side) (c : BufferSyncConfig)
    (hd : c.dropPolicy = .oldest) (s : Store) (e : Event) (hq : Regular (side.config n c) s e) :
    Untouched n side (side.config n c) s e ↔ Spares n side (side.config n c) s e := by
  have hdrop : (side.config n c).dropPolicy = .oldest := by cases side <;> exact hd
  cases e with
  | publish p =>
    constructor
    · intro h hp r hr hv
      by_contra ho
      exact (mem_handlePublish hdrop s p hq r hr).mp (h r hr (by simpa using ho)) hp hv
    · intro h r hr ho
      refine (mem_handlePublish hdrop s p hq r hr).mpr (fun hp hv => ?_)
      rw [h hp r hr hv] at ho
      cases ho
  | flush connected mode cycles =>
    refine ⟨fun _ => trivial,fun _ r hr ho => ?_⟩
    exact flushBuffer_outside connected mode cycles s hq r hr (other_outside n side c _ ho)

/-- In a run of one instance within the quotas the other instance's records
stay untouched exactly when none of them makes room for a critical message,
and a name outside the reserved prefix passes the main instance's filter
exactly when it does not begin with that prefix in another case. -/
theorem scopes_isolated_iff (n : String) (side : Side) (c : BufferSyncConfig)
    (hd : c.dropPolicy = .oldest) (es : List Event) (s : Store)
    (hq : Meets (step (side.config n c)) (Regular (side.config n c)) es s) :
    (Meets (step (side.config n c)) (Untouched n side (side.config n c)) es s ↔
      Meets (step (side.config n c)) (Spares n side (side.config n c)) es s) ∧
    ∀ name, (startsWith name "ext-dest-" = false →
        inScope (Side.main.config n c).scope name = true) ↔
      ("ext-dest-".toList.map Char.toLower <+: name.toList.map Char.toLower →
        startsWith name "ext-dest-" = true) := by
  refine ⟨meets_congr (untouched_iff_spares n side c hd) es s hq,fun name => ?_⟩
  rw [inScope_main]
  cases startsWith name "ext-dest-" <;> simp

def mainReading : NewRecord where
  endpointName := "humidity"
  topic := "devices/humidity"
  qos := 0
  payload := "40"
  msgId := none
  isCritical := some 0

def sharedStore : Store := (enqueue (emptyStore defaultMetadata) mainReading 0).1

def smallBuffer (maxBufferRecords : ℤ) : BufferSyncConfig where
  enabled := true
  flushBatchSize := 10
  maxRetries := 5
  maxBufferRecords := maxBufferRecords
  dropPolicy := .oldest
  maxFlushPerCycle := 50
  bufferEvenWhenOnline := false
  scopeEndpointName := none
  scopeExcludePrefix := none

def alarm : Publish where
  topic := "alerts/fire"
  payloadText := "1"
  payloadBytes := 1
  msgId := none
  qos := none
  connected := false
  mode := .direct
  now := 5

theorem scopes_isolated_with_room :
    Meets (step (Side.destination.config "7" (smallBuffer 2)))
      (Untouched "7" .destination (Side.destination.config "7" (smallBuffer 2)))
      [.publish alarm] sharedStore := by
  refine (scopes_isolated_iff "7" .destination (smallBuffer 2) rfl [.publish alarm] sharedStore
    ⟨fun _ _ _ => by decide,trivial⟩).1.mpr ⟨?_,trivial⟩
  intro hp
  exact absurd hp (by decide)

/-- With room for one record only, the alarm of the destination deletes the
reading of the main instance; and a name in capitals is not reserved but
excluded. -/
theorem alarm_deletes_other_scope :
    ¬(∀ es, Meets (step (Side.destination.config "7" (smallBuffer 1)))
        (Regular (Side.destination.config "7" (smallBuffer 1))) es sharedStore →
      Meets (step (Side.destination.config "7" (smallBuffer 1)))
        (Untouched "7" .destination (Side.destination.config "7" (smallBuffer 1))) es
          sharedStore) ∧
    ¬(∀ name, startsWith name "ext-dest-" = false →
        inScope (Side.main.config "7" (smallBuffer 1)).scope name = true) := by
  constructor
  · intro h
    have hu := (h [.publish alarm] ⟨fun _ _ _ => by decide,trivial⟩).1
    revert hu
    unfold Untouched
    decide
  · intro h
    exact absurd (h "EXT-DEST-7" (by decide)) (by decide)

end Iotistica.BufferScope
