import Iotistica.LogPending
import Iotistica.DoubleRounding

/-!
# Adaptive batch limits

The limits of a flush grow by a tenth after three acknowledged batches in a
row and are halved by an error. They are doubles between a minimum and a
maximum, and a flush cuts its buffer by their integer parts: greedily, one
log after the other, with the last batch closed at the end.
-/

set_option autoImplicit false

namespace Iotistica.CloudLog
open Iotistica Iotistica.GuardedRun
open Iotistica.DoubleRounding (nearest mul le_nearest nearest_le)

structure Adaptive where
  adaptiveBatchSize : ℚ
  adaptiveMaxBytes : ℚ
  consecutiveSuccesses : ℕ
  deriving DecidableEq

def MIN_BATCH_SIZE : ℤ := 10

def MAX_BATCH_SIZE : ℤ := 200

def MIN_BATCH_BYTES : ℤ := 1*1024*1024

def MAX_BATCH_BYTES : ℤ := 20*1024*1024

def Adaptive.start : Adaptive := ⟨50,5*1024*1024,0⟩

/-- The literal `1.1`. -/
def growth : ℚ := nearest (11/10)

/-- The literal `0.5`. -/
def decrease : ℚ := 1/2

def grown (limit : ℚ) (most : ℤ) : ℚ := min (mul limit growth) most

def cutDown (limit : ℚ) (least : ℤ) : ℚ := max (mul limit decrease) least

inductive Outcome where
  | success
  | failure
  deriving DecidableEq

def Adaptive.step (a : Adaptive) : Outcome → Adaptive
  | .success =>
    if a.consecutiveSuccesses+1 ≥ 3 then
      ⟨grown a.adaptiveBatchSize MAX_BATCH_SIZE,grown a.adaptiveMaxBytes MAX_BATCH_BYTES,0⟩
    else { a with consecutiveSuccesses := a.consecutiveSuccesses+1 }
  | .failure =>
    ⟨cutDown a.adaptiveBatchSize MIN_BATCH_SIZE,cutDown a.adaptiveMaxBytes MIN_BATCH_BYTES,0⟩

def Adaptive.plan (a : Adaptive) (delays : List ℕ) : Plan :=
  ⟨⌊a.adaptiveBatchSize⌋.toNat,⌊a.adaptiveMaxBytes⌋.toNat,delays⟩

def Between (least most : ℤ) (limit : ℚ) : Prop := (least : ℚ) ≤ limit ∧ limit ≤ most

structure Adaptive.InRange (a : Adaptive) : Prop where
  size : Between MIN_BATCH_SIZE MAX_BATCH_SIZE a.adaptiveBatchSize
  bytes : Between MIN_BATCH_BYTES MAX_BATCH_BYTES a.adaptiveMaxBytes

theorem growth_range : 1 ≤ growth ∧ growth ≤ 2 := by
  have hsmall : |(11/10:ℚ)| < 2^53 := by norm_num [abs_of_pos]
  constructor
  · exact_mod_cast le_nearest hsmall (n := 1) (by norm_num)
  · exact_mod_cast nearest_le hsmall (n := 2) (by norm_num)

theorem between_grown {least most : ℤ} {limit : ℚ} (hleast : 0 ≤ least) (hmost : most < 2^52)
    (h : Between least most limit) : Between least most (grown limit most) := by
  obtain ⟨hlow,hhigh⟩ := h
  obtain ⟨hone,htwo⟩ := growth_range
  have hleast' : (0:ℚ) ≤ least := by exact_mod_cast hleast
  have hmost' : (most:ℚ) < 2^52 := by exact_mod_cast hmost
  have hup : (least:ℚ) ≤ limit*growth := hlow.trans (le_mul_of_one_le_right (hleast'.trans hlow) hone)
  have hsmall : |limit*growth| < 2^53 := by
    rw [abs_of_nonneg (hleast'.trans hup)]
    have hdouble : limit*growth ≤ limit*2 := mul_le_mul_of_nonneg_left htwo (hleast'.trans hlow)
    linarith
  exact ⟨le_min (le_nearest hsmall hup) (hlow.trans hhigh),min_le_right _ _⟩

theorem between_cutDown {least most : ℤ} {limit : ℚ} (hleast : 0 ≤ least) (hmost : most < 2^52)
    (h : Between least most limit) : Between least most (cutDown limit least) := by
  obtain ⟨hlow,hhigh⟩ := h
  have hleast' : (0:ℚ) ≤ least := by exact_mod_cast hleast
  have hmost' : (most:ℚ) < 2^52 := by exact_mod_cast hmost
  have hdown : limit*decrease ≤ most := by
    unfold decrease
    linarith
  have hsmall : |limit*decrease| < 2^53 := by
    have hpos : 0 ≤ limit*decrease := by
      unfold decrease
      linarith
    rw [abs_of_nonneg hpos]
    linarith
  exact ⟨le_max_right _ _,max_le (nearest_le hsmall hdown) (hlow.trans hhigh)⟩

theorem Adaptive.InRange.step {a : Adaptive} (h : a.InRange) (o : Outcome) :
    (a.step o).InRange := by
  cases o with
  | success =>
    unfold Adaptive.step
    dsimp only
    split
    · exact ⟨between_grown (by decide) (by decide) h.size,
        between_grown (by decide) (by decide) h.bytes⟩
    · exact ⟨h.size,h.bytes⟩
  | failure =>
    exact ⟨between_cutDown (by decide) (by decide) h.size,
      between_cutDown (by decide) (by decide) h.bytes⟩

theorem inRange_start : Adaptive.start.InRange := by
  constructor <;> constructor <;>
    norm_num [Adaptive.start, MIN_BATCH_SIZE, MAX_BATCH_SIZE, MIN_BATCH_BYTES, MAX_BATCH_BYTES]

theorem inRange_run (outcomes : List Outcome) :
    (run Adaptive.step outcomes Adaptive.start).InRange :=
  run_invariant (fun _ o _ h => h.step o) outcomes _ (meets_any _ _ _) inRange_start

theorem Adaptive.InRange.one_le_maxBatchSize {a : Adaptive} (h : a.InRange) (delays : List ℕ) :
    1 ≤ (a.plan delays).maxBatchSize := by
  have hten : MIN_BATCH_SIZE ≤ ⌊a.adaptiveBatchSize⌋ := Int.le_floor.mpr h.size.1
  have hmin : MIN_BATCH_SIZE = 10 := rfl
  unfold Adaptive.plan
  dsimp only
  omega

def serialisedBytes (cfg : Config) (logs : List LogMessage) : ℕ :=
  (logs.map (fun log => cfg.jsonLength log+1)).sum

def Fits (cfg : Config) (plan : Plan) (logs : List LogMessage) : Prop :=
  logs.length ≤ plan.maxBatchSize ∧ serialisedBytes cfg logs ≤ plan.maxBatchBytes

/-- A batch within the limits; a log that is too large alone is a batch of
its own. -/
structure Sized (cfg : Config) (plan : Plan) (logs : List LogMessage) : Prop where
  nonempty : logs ≠ []
  count : logs.length ≤ plan.maxBatchSize
  bytes : logs.length = 1 ∨ serialisedBytes cfg logs ≤ plan.maxBatchBytes

def Apart (cfg : Config) (plan : Plan) (logs logs' : List LogMessage) : Prop :=
  ∀ log ∈ logs'.head?, ¬Fits cfg plan (logs++[log])

theorem serialisedBytes_append (cfg : Config) (logs : List LogMessage) (log : LogMessage) :
    serialisedBytes cfg (logs++[log]) = serialisedBytes cfg logs+(cfg.jsonLength log+1) := by
  simp [serialisedBytes]

theorem sized_single (cfg : Config) {plan : Plan} (h : 1 ≤ plan.maxBatchSize) (log : LogMessage) :
    Sized cfg plan [log] := ⟨by simp,h,Or.inl rfl⟩

theorem Apart.snoc {cfg : Config} {plan : Plan} {logs logs' : List LogMessage}
    (h : Apart cfg plan logs logs') (hne : logs' ≠ []) (log : LogMessage) :
    Apart cfg plan logs (logs'++[log]) := by
  intro l hl
  rw [List.head?_append_of_ne_nil _ hne] at hl
  exact h l hl

structure Greedy (cfg : Config) (plan : Plan) (c : Cutter) : Prop where
  measured : c.currentBatchBytes = serialisedBytes cfg c.currentBatch
  sized : ∀ logs ∈ c.logBatches.map LogBatch.logs, Sized cfg plan logs
  apart : (c.logBatches.map LogBatch.logs).IsChain (Apart cfg plan)
  filling : c.currentBatch = [] → c.logBatches = []
  current : c.currentBatch ≠ [] → Sized cfg plan c.currentBatch
  border : ∀ logs ∈ (c.logBatches.map LogBatch.logs).getLast?,
    Apart cfg plan logs c.currentBatch

theorem Cutter.map_logs_cut (cfg : Config) (c : Cutter) :
    (c.cut cfg).logBatches.map LogBatch.logs
      = c.logBatches.map LogBatch.logs++[c.currentBatch] := by
  simp [Cutter.cut]

theorem Greedy.sized_cut {cfg : Config} {plan : Plan} {c : Cutter} (h : Greedy cfg plan c)
    (hne : c.currentBatch ≠ []) :
    ∀ logs ∈ (c.cut cfg).logBatches.map LogBatch.logs, Sized cfg plan logs := by
  intro logs hlogs
  rw [Cutter.map_logs_cut, List.mem_append, List.mem_singleton] at hlogs
  rcases hlogs with hlogs | rfl
  · exact h.sized logs hlogs
  · exact h.current hne

theorem Greedy.apart_cut {cfg : Config} {plan : Plan} {c : Cutter} (h : Greedy cfg plan c) :
    ((c.cut cfg).logBatches.map LogBatch.logs).IsChain (Apart cfg plan) := by
  rw [Cutter.map_logs_cut, List.isChain_append]
  refine ⟨h.apart,List.isChain_singleton _,?_⟩
  intro logs hlogs current hcurrent
  obtain rfl : c.currentBatch = current := by simpa using hcurrent
  exact h.border logs hlogs

theorem Greedy.push_cut {cfg : Config} {plan : Plan} {c : Cutter} (h : Greedy cfg plan c)
    (hsize : 1 ≤ plan.maxBatchSize) (hne : c.currentBatch ≠ []) {log : LogMessage}
    (hfull : ¬Fits cfg plan (c.currentBatch++[log])) :
    Greedy cfg plan { c.cut cfg with
      currentBatch := [log]
      currentBatchBytes := cfg.jsonLength log+1 } := by
  refine ⟨by simp [serialisedBytes],h.sized_cut hne,h.apart_cut,?_,?_,?_⟩
  · intro hnil
    cases hnil
  · intro _
    exact sized_single cfg hsize log
  · intro logs hlogs l hl
    rw [Cutter.map_logs_cut, List.getLast?_concat] at hlogs
    obtain rfl : c.currentBatch = logs := by simpa using hlogs
    obtain rfl : log = l := by simpa using hl
    exact hfull

theorem Greedy.push_fill {cfg : Config} {plan : Plan} {c : Cutter} (h : Greedy cfg plan c)
    (hsize : 1 ≤ plan.maxBatchSize) {log : LogMessage}
    (hroom : c.currentBatch ≠ [] → Fits cfg plan (c.currentBatch++[log])) :
    Greedy cfg plan { c with
      currentBatch := c.currentBatch++[log]
      currentBatchBytes := c.currentBatchBytes+(cfg.jsonLength log+1) } := by
  refine ⟨?_,h.sized,h.apart,?_,?_,?_⟩
  · rw [serialisedBytes_append, h.measured]
  · intro hnil
    simp at hnil
  · intro _
    rcases eq_or_ne c.currentBatch [] with hnil | hne
    · dsimp only
      rw [hnil, List.nil_append]
      exact sized_single cfg hsize log
    · obtain ⟨hcount,hbytes⟩ := hroom hne
      exact ⟨by simp,hcount,Or.inr hbytes⟩
  · intro logs hlogs
    rcases eq_or_ne c.currentBatch [] with hnil | hne
    · rw [h.filling hnil] at hlogs
      cases hlogs
    · exact (h.border logs hlogs).snoc hne log

theorem Greedy.push {cfg : Config} {plan : Plan} {c : Cutter} (h : Greedy cfg plan c)
    (hsize : 1 ≤ plan.maxBatchSize) (log : LogMessage) : Greedy cfg plan (c.push cfg plan log) := by
  have hfits : Fits cfg plan (c.currentBatch++[log])
      ↔ ¬(c.currentBatchBytes+(cfg.jsonLength log+1) > plan.maxBatchBytes
        ∨ c.currentBatch.length ≥ plan.maxBatchSize) := by
    unfold Fits
    rw [serialisedBytes_append, h.measured, List.length_append, List.length_singleton]
    omega
  unfold Cutter.push
  dsimp only
  split
  · rename_i hover
    have hne : c.currentBatch ≠ [] := List.ne_nil_of_length_pos hover.2
    have hcut := h.push_cut hsize hne (fun hf => hfits.mp hf hover.1)
    simpa [Cutter.cut] using hcut
  · rename_i hover
    apply h.push_fill hsize
    intro hne
    exact hfits.mpr (fun hor => hover ⟨hor,List.length_pos_of_ne_nil hne⟩)

theorem Greedy.pushAll {cfg : Config} {plan : Plan} (hsize : 1 ≤ plan.maxBatchSize)
    (logs : List LogMessage) :
    ∀ {c : Cutter}, Greedy cfg plan c → Greedy cfg plan (logs.foldl (Cutter.push cfg plan) c) := by
  induction logs with
  | nil => exact fun h => h
  | cons log logs ih => exact fun h => ih (h.push hsize log)

/-- Any limits that admit a log give batches within them that are as long as
they can be. -/
theorem cutBuffer_greedy (cfg : Config) {plan : Plan} (hsize : 1 ≤ plan.maxBatchSize)
    (s : Backend) :
    (∀ logs ∈ (cutBuffer cfg plan s).logBatches.map LogBatch.logs, Sized cfg plan logs)
      ∧ ((cutBuffer cfg plan s).logBatches.map LogBatch.logs).IsChain (Apart cfg plan) := by
  have hstart : Greedy cfg plan ⟨[],[],0,s.nextBatchId,s.now,plan.delays⟩ :=
    ⟨rfl,by simp,by simp,fun _ => rfl,fun h => absurd rfl h,by simp⟩
  have hall := Greedy.pushAll hsize s.buffer hstart
  unfold cutBuffer Cutter.finish
  split
  · rename_i hpos
    exact ⟨hall.sized_cut (List.ne_nil_of_length_pos hpos),hall.apart_cut⟩
  · exact ⟨hall.sized,hall.apart⟩

/-- Whatever requests succeeded and failed before, a flush partitions its
buffer: the batches are the buffer in order, none is empty, each is within
the limits unless it is a single log, and none had room for the next log. -/
theorem flush_partitions (cfg : Config) (outcomes : List Outcome) (delays : List ℕ)
    (s : Backend) :
    let limits := run Adaptive.step outcomes Adaptive.start
    let plan := limits.plan delays
    let batches := (cutBuffer cfg plan s).logBatches.map LogBatch.logs
    limits.InRange ∧ batches.flatten = s.buffer ∧ (∀ logs ∈ batches, Sized cfg plan logs)
      ∧ batches.IsChain (Apart cfg plan) := by
  intro limits plan batches
  have hrange : limits.InRange := inRange_run outcomes
  obtain ⟨hsized,hapart⟩ := cutBuffer_greedy cfg (hrange.one_le_maxBatchSize delays) s
  refine ⟨hrange,?_,hsized,hapart⟩
  have hlogs := (cutBuffer_cut cfg plan s).2
  rwa [← List.flatMap_def]

end Iotistica.CloudLog
