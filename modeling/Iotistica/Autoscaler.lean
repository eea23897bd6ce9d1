import Iotistica.GuardedRun
import Mathlib.Data.Finset.Max
import Mathlib.Algebra.Order.Floor.Ring
import Mathlib.Data.Rat.Floor

/-!
# Scaling the ingestion workers

A worker that is told to retire stays active until its loop comes round, so
the number that counts is the difference of two sets. A scale-down retires
the newest active worker, also when that one is retiring already and only its
loop has not ended yet.
-/

set_option autoImplicit false

namespace Iotistica.Autoscaler
open Iotistica.GuardedRun

/-- Times in milliseconds; the counts satisfy 1 ≤ minWorkers ≤ maxWorkers. -/
structure Config where
  workerCount : ℤ
  minWorkers : ℤ
  maxWorkers : ℤ
  lagTargetMs : ℚ
  lagScaleUpMs : ℚ
  lagCriticalMs : ℚ
  lagScaleDownStableChecks : ℕ
  scaleCooldownMs : ℤ
  dbScaleUpBlockSaturationPct : ℚ
  one_le_min : 1 ≤ minWorkers
  min_le_max : minWorkers ≤ maxWorkers

structure RedisQueueConsumer where
  isRunning : Bool
  lastScaleAtMs : ℤ
  consecutiveBelowTargetLagChecks : ℕ
  nextWorkerId : ℕ
  desiredWorkerCount : ℤ
  activeWorkerIds : Finset ℕ
  retiringWorkerIds : Finset ℕ
  deriving DecidableEq

def created : RedisQueueConsumer := ⟨false,0,0,0,0,∅,∅⟩

def RedisQueueConsumer.effectiveWorkerCount (s : RedisQueueConsumer) : ℤ :=
  s.activeWorkerIds.card-s.retiringWorkerIds.card

def clampWorkerCount (cfg : Config) (count : ℤ) : ℤ :=
  max cfg.minWorkers (min cfg.maxWorkers count)

def spawnWorkerLoop (s : RedisQueueConsumer) : RedisQueueConsumer :=
  { s with
    nextWorkerId := s.nextWorkerId+1
    activeWorkerIds := insert s.nextWorkerId s.activeWorkerIds }

def newestWorker (s : RedisQueueConsumer) : Option ℕ := s.activeWorkerIds.max

def retireOneWorker (s : RedisQueueConsumer) : RedisQueueConsumer :=
  match newestWorker s with
  | some workerId => { s with retiringWorkerIds := insert workerId s.retiringWorkerIds }
  | none => s

def start (cfg : Config) (s : RedisQueueConsumer) : RedisQueueConsumer :=
  if s.isRunning then s
  else
    let desired := clampWorkerCount cfg cfg.workerCount
    spawnWorkerLoop^[desired.toNat] { s with isRunning := true, desiredWorkerCount := desired }

def stop (s : RedisQueueConsumer) : RedisQueueConsumer :=
  { s with isRunning := false, activeWorkerIds := ∅, retiringWorkerIds := ∅ }

def loopEnds (s : RedisQueueConsumer) (workerId : ℕ) : RedisQueueConsumer :=
  if s.isRunning = true ∧ workerId ∈ s.activeWorkerIds ∧ workerId ∉ s.retiringWorkerIds then s
  else { s with
    activeWorkerIds := s.activeWorkerIds.erase workerId
    retiringWorkerIds := s.retiringWorkerIds.erase workerId }

def increment (cfg : Config) (lagMs : ℚ) : ℤ :=
  min 3 (max 1 ⌈if 0 < cfg.lagTargetMs then lagMs/cfg.lagTargetMs else 1⌉)

/-- What `getPoolStats` and the metrics say when a lag is looked at. -/
structure Observation where
  now : ℤ
  lagMs : ℚ
  saturationPct : ℚ
  insertP95 : ℚ

def desiredWorkers (cfg : Config) (checks : ℕ) (currentWorkers : ℤ) (o : Observation) : ℤ × ℕ :=
  if o.lagMs < cfg.lagTargetMs then
    if cfg.lagScaleDownStableChecks ≤ checks+1 then
      -- a slow database keeps its workers
      if cfg.lagTargetMs < o.insertP95 then (currentWorkers,0)
      else (max cfg.minWorkers (currentWorkers-1),checks+1)
    else (currentWorkers,checks+1)
  else if cfg.lagCriticalMs < o.lagMs then
    (min cfg.maxWorkers (currentWorkers+increment cfg o.lagMs),0)
  else if cfg.lagScaleUpMs < o.lagMs then (min cfg.maxWorkers (currentWorkers+1),0)
  else (currentWorkers,0)

def scaleTo (s : RedisQueueConsumer) (now currentWorkers desired : ℤ) : RedisQueueConsumer :=
  let s := { s with
    lastScaleAtMs := now
    desiredWorkerCount := desired
    consecutiveBelowTargetLagChecks := 0 }
  if currentWorkers < desired then spawnWorkerLoop^[(desired-currentWorkers).toNat] s
  else retireOneWorker^[(currentWorkers-desired).toNat] s

def maybeAutoscale (cfg : Config) (s : RedisQueueConsumer) (o : Observation) :
    RedisQueueConsumer × Option ℤ :=
  if o.now-s.lastScaleAtMs < cfg.scaleCooldownMs then (s,none)
  else
    let currentWorkers := s.effectiveWorkerCount
    if currentWorkers = 0 then (s,none)
    else
      let r := desiredWorkers cfg s.consecutiveBelowTargetLagChecks currentWorkers o
      let s := { s with consecutiveBelowTargetLagChecks := r.2 }
      if currentWorkers < r.1 ∧ cfg.dbScaleUpBlockSaturationPct ≤ o.saturationPct then (s,none)
      else if r.1 = currentWorkers then (s,none)
      else (scaleTo s o.now currentWorkers r.1,some r.1)

inductive Event where
  | start
  | stop
  | lag (o : Observation)
  | loopEnds (workerId : ℕ)

def step (cfg : Config) (s : RedisQueueConsumer) : Event → RedisQueueConsumer
  | .start => start cfg s
  | .stop => stop s
  | .lag o => (maybeAutoscale cfg s o).1
  | .loopEnds workerId => loopEnds s workerId

def decided (cfg : Config) (s : RedisQueueConsumer) : Event → Option ℤ
  | .lag o => (maybeAutoscale cfg s o).2
  | _ => none

def workers (s : RedisQueueConsumer) : ℤ := (s.activeWorkerIds \ s.retiringWorkerIds).card

/-- Directly after each decision there are as many workers as desired, and
while the consumer runs their number stays between the bounds. -/
def Steered (cfg : Config) (es : List Event) : Prop :=
  (∀ pre e post, es = pre++e::post → (decided cfg (run (step cfg) pre created) e).isSome →
    workers (run (step cfg) (pre++[e]) created) =
      (run (step cfg) (pre++[e]) created).desiredWorkerCount) ∧
  ∀ pre, pre <+: es → (run (step cfg) pre created).isRunning = true →
    cfg.minWorkers ≤ workers (run (step cfg) pre created) ∧
      workers (run (step cfg) pre created) ≤ cfg.maxWorkers

def ScalesDown (cfg : Config) (s : RedisQueueConsumer) (o : Observation) : Prop :=
  cfg.scaleCooldownMs ≤ o.now-s.lastScaleAtMs ∧ o.lagMs < cfg.lagTargetMs ∧
    cfg.lagScaleDownStableChecks ≤ s.consecutiveBelowTargetLagChecks+1 ∧
    o.insertP95 ≤ cfg.lagTargetMs ∧ cfg.minWorkers < s.effectiveWorkerCount

/-- At a scale-down the newest active worker is not retiring already. -/
def NewestStays (cfg : Config) (s : RedisQueueConsumer) : Event → Prop
  | .lag o => ScalesDown cfg s o → ∀ workerId ∈ newestWorker s, workerId ∉ s.retiringWorkerIds
  | _ => True

structure Placed (s : RedisQueueConsumer) : Prop where
  subset : s.retiringWorkerIds ⊆ s.activeWorkerIds
  fresh : ∀ id ∈ s.activeWorkerIds, id < s.nextWorkerId

theorem Placed.effective {s : RedisQueueConsumer} (h : Placed s) :
    s.effectiveWorkerCount = workers s := by
  have hle := Finset.card_le_card h.subset
  rw [RedisQueueConsumer.effectiveWorkerCount, workers, Finset.card_sdiff_of_subset h.subset]
  omega

theorem Placed.spawn {s : RedisQueueConsumer} (h : Placed s) : Placed (spawnWorkerLoop s) := by
  refine ⟨h.subset.trans (Finset.subset_insert _ _),?_⟩
  intro id hid
  rcases Finset.mem_insert.mp hid with rfl | hid
  · exact Nat.lt_succ_self _
  · exact Nat.lt_succ_of_lt (h.fresh id hid)

theorem Placed.workers_spawn {s : RedisQueueConsumer} (h : Placed s) :
    workers (spawnWorkerLoop s) = workers s+1 := by
  have hactive : s.nextWorkerId ∉ s.activeWorkerIds := fun hid => lt_irrefl _ (h.fresh _ hid)
  have hretiring : s.nextWorkerId ∉ s.retiringWorkerIds := fun hid => hactive (h.subset hid)
  have hset : insert s.nextWorkerId s.activeWorkerIds \ s.retiringWorkerIds =
      insert s.nextWorkerId (s.activeWorkerIds \ s.retiringWorkerIds) :=
    Finset.insert_sdiff_of_notMem _ hretiring
  have hnot : s.nextWorkerId ∉ s.activeWorkerIds \ s.retiringWorkerIds :=
    fun hid => hactive (Finset.mem_sdiff.mp hid).1
  rw [workers, spawnWorkerLoop, hset, Finset.card_insert_of_notMem hnot]
  push_cast
  rfl

theorem Placed.spawn_many {s : RedisQueueConsumer} (h : Placed s) (n : ℕ) :
    Placed (spawnWorkerLoop^[n] s) ∧ workers (spawnWorkerLoop^[n] s) = workers s+n ∧
      (spawnWorkerLoop^[n] s).isRunning = s.isRunning ∧
      (spawnWorkerLoop^[n] s).desiredWorkerCount = s.desiredWorkerCount := by
  induction n generalizing s with
  | zero => exact ⟨h,by simp,rfl,rfl⟩
  | succ n ih =>
    obtain ⟨hp,hw,hr,hd⟩ := ih h.spawn
    rw [Function.iterate_succ_apply]
    refine ⟨hp,?_,hr,hd⟩
    rw [hw, h.workers_spawn]
    push_cast
    ring

theorem Placed.retire {s : RedisQueueConsumer} (h : Placed s) : Placed (retireOneWorker s) := by
  unfold retireOneWorker
  split
  · rename_i workerId hnew
    exact ⟨Finset.insert_subset (Finset.mem_of_max hnew) h.subset,h.fresh⟩
  · exact h

theorem retire_again {s : RedisQueueConsumer} {workerId : ℕ} (hnew : newestWorker s = some workerId)
    (hr : workerId ∈ s.retiringWorkerIds) : retireOneWorker s = s := by
  unfold retireOneWorker
  rw [hnew]
  simp only [Finset.insert_eq_of_mem hr]

theorem workers_retire {s : RedisQueueConsumer} {workerId : ℕ}
    (hnew : newestWorker s = some workerId) (hr : workerId ∉ s.retiringWorkerIds) :
    workers (retireOneWorker s) = workers s-1 := by
  have hmem : workerId ∈ s.activeWorkerIds \ s.retiringWorkerIds :=
    Finset.mem_sdiff.mpr ⟨Finset.mem_of_max hnew,hr⟩
  have hset : s.activeWorkerIds \ insert workerId s.retiringWorkerIds =
      (s.activeWorkerIds \ s.retiringWorkerIds).erase workerId := Finset.sdiff_insert _ _ _
  have hpos := Finset.card_pos.mpr ⟨_,hmem⟩
  unfold retireOneWorker
  rw [hnew]
  simp only [workers, hset, Finset.card_erase_of_mem hmem]
  omega

theorem newest_isSome {s : RedisQueueConsumer} (h : 0 < workers s) :
    ∃ workerId, newestWorker s = some workerId := by
  obtain ⟨id,hid⟩ := Finset.card_pos.mp (by simpa [workers] using h)
  obtain ⟨m,hm⟩ := Finset.max_of_mem (Finset.mem_sdiff.mp hid).1
  exact ⟨m,hm⟩

def checked (s : RedisQueueConsumer) (n : ℕ) : RedisQueueConsumer :=
  { s with consecutiveBelowTargetLagChecks := n }

def scaled (s : RedisQueueConsumer) (now desired : ℤ) : RedisQueueConsumer :=
  { s with
    lastScaleAtMs := now
    desiredWorkerCount := desired
    consecutiveBelowTargetLagChecks := 0 }

theorem desired_cases (cfg : Config) (checks : ℕ) {currentWorkers : ℤ} (o : Observation)
    (hlow : cfg.minWorkers ≤ currentWorkers) (hhigh : currentWorkers ≤ cfg.maxWorkers) :
    let desired := (desiredWorkers cfg checks currentWorkers o).1
    let down := o.lagMs < cfg.lagTargetMs ∧ cfg.lagScaleDownStableChecks ≤ checks+1 ∧
      o.insertP95 ≤ cfg.lagTargetMs ∧ cfg.minWorkers < currentWorkers
    (currentWorkers ≤ desired ∧ desired ≤ cfg.maxWorkers ∧ ¬down) ∨
      (desired = currentWorkers-1 ∧ down) := by
  have hinc : 1 ≤ increment cfg o.lagMs := by
    unfold increment
    omega
  simp only [desiredWorkers]
  by_cases hlag : o.lagMs < cfg.lagTargetMs
  · by_cases hchecks : cfg.lagScaleDownStableChecks ≤ checks+1
    · by_cases hp : cfg.lagTargetMs < o.insertP95
      · have hnot : ¬o.insertP95 ≤ cfg.lagTargetMs := not_le.mpr hp
        simp only [hlag, hchecks, hp, if_true, hnot]
        exact Or.inl ⟨le_refl _,hhigh,by simp⟩
      · have hle : o.insertP95 ≤ cfg.lagTargetMs := not_lt.mp hp
        simp only [hlag, hchecks, hp, if_true, if_false, hle, true_and]
        omega
    · simp only [hlag, hchecks, if_true, if_false]
      exact Or.inl ⟨le_refl _,hhigh,by simp⟩
  · simp only [hlag, if_false, false_and, and_false, or_false, not_false_iff, and_true]
    split
    · simp only
      omega
    · split
      · simp only
        omega
      · exact ⟨le_refl _,hhigh⟩

/-- Everything an observation can do: nothing but counting, a scale-up within
the maximum, or the retirement of one worker. -/
theorem autoscale_cases {cfg : Config} {s : RedisQueueConsumer} (o : Observation) (hp : Placed s)
    (hlow : cfg.minWorkers ≤ workers s) (hhigh : workers s ≤ cfg.maxWorkers) :
    (∃ n, maybeAutoscale cfg s o = (checked s n,none) ∧ ¬ScalesDown cfg s o) ∨
    (∃ d, maybeAutoscale cfg s o =
        (spawnWorkerLoop^[(d-workers s).toNat] (scaled s o.now d),some d) ∧
      workers s < d ∧ d ≤ cfg.maxWorkers ∧ ¬ScalesDown cfg s o) ∨
    (maybeAutoscale cfg s o =
        (retireOneWorker (scaled s o.now (workers s-1)),some (workers s-1)) ∧
      ScalesDown cfg s o) := by
  have heff := hp.effective
  have hone := cfg.one_le_min
  unfold maybeAutoscale ScalesDown
  simp only [heff]
  by_cases hcool : o.now-s.lastScaleAtMs < cfg.scaleCooldownMs
  · rw [if_pos hcool]
    exact Or.inl ⟨s.consecutiveBelowTargetLagChecks,rfl,fun h => absurd h.1 (not_le.mpr hcool)⟩
  rw [if_neg hcool, if_neg (by omega)]
  rcases desired_cases cfg s.consecutiveBelowTargetLagChecks o hlow hhigh with ⟨hge,hmax,hdown⟩ | ⟨hd,hdown⟩
  · have hnot : ¬(cfg.scaleCooldownMs ≤ o.now-s.lastScaleAtMs ∧ o.lagMs < cfg.lagTargetMs ∧
        cfg.lagScaleDownStableChecks ≤ s.consecutiveBelowTargetLagChecks+1 ∧
        o.insertP95 ≤ cfg.lagTargetMs ∧ cfg.minWorkers < workers s) := fun h => hdown h.2
    split
    · exact Or.inl ⟨_,rfl,hnot⟩
    split
    · exact Or.inl ⟨_,rfl,hnot⟩
    · rename_i hne
      have hlt : workers s < (desiredWorkers cfg s.consecutiveBelowTargetLagChecks (workers s) o).1 := by
        omega
      refine Or.inr (Or.inl ⟨_,?_,hlt,hmax,hnot⟩)
      simp only [scaleTo, if_pos hlt]
      rfl
  · rw [if_neg (by omega), if_neg (by omega)]
    refine Or.inr (Or.inr ⟨?_,not_lt.mp hcool,hdown⟩)
    have hn : (workers s-(workers s-1)).toNat = 1 := by omega
    rw [hd]
    simp only [scaleTo, if_neg (show ¬workers s < workers s-1 by omega), hn, Function.iterate_one]
    rfl

structure Sound (cfg : Config) (s : RedisQueueConsumer) : Prop where
  placed : Placed s
  idle : s.isRunning = false → s.activeWorkerIds = ∅
  bounded : s.isRunning = true → cfg.minWorkers ≤ workers s ∧ workers s ≤ cfg.maxWorkers

theorem sound_created (cfg : Config) : Sound cfg created :=
  ⟨⟨Finset.Subset.refl _,fun id hid => by simp [created] at hid⟩,fun _ => rfl,
    fun h => by cases h⟩

theorem workers_idle {s : RedisQueueConsumer} (h : s.activeWorkerIds = ∅) : workers s = 0 := by
  simp [workers, h]

theorem Sound.start {cfg : Config} {s : RedisQueueConsumer} (h : Sound cfg s) :
    Sound cfg (start cfg s) := by
  unfold Autoscaler.start
  split
  · exact h
  · rename_i hidle
    have hempty := h.idle (by simpa using hidle)
    have hmin := cfg.one_le_min
    have hmax := cfg.min_le_max
    have hp : Placed { s with
        isRunning := true, desiredWorkerCount := clampWorkerCount cfg cfg.workerCount } :=
      ⟨h.placed.subset,h.placed.fresh⟩
    obtain ⟨hp',hw,hr,_⟩ := hp.spawn_many (clampWorkerCount cfg cfg.workerCount).toNat
    refine ⟨hp',fun hf => ?_,fun _ => ?_⟩
    · rw [hr] at hf
      cases hf
    · have hzero := workers_idle (s := { s with
        isRunning := true, desiredWorkerCount := clampWorkerCount cfg cfg.workerCount }) hempty
      rw [hw, hzero]
      unfold clampWorkerCount
      omega

theorem Sound.loopEnds {cfg : Config} {s : RedisQueueConsumer} (h : Sound cfg s) (workerId : ℕ) :
    Sound cfg (loopEnds s workerId) := by
  unfold Autoscaler.loopEnds
  split
  · exact h
  · rename_i hends
    have hw : s.isRunning = true → workers { s with
        activeWorkerIds := s.activeWorkerIds.erase workerId
        retiringWorkerIds := s.retiringWorkerIds.erase workerId } = workers s := by
      intro hr
      have hnot : workerId ∉ s.activeWorkerIds \ s.retiringWorkerIds := by
        intro hmem
        exact hends ⟨hr,(Finset.mem_sdiff.mp hmem).1,(Finset.mem_sdiff.mp hmem).2⟩
      have hset : s.activeWorkerIds.erase workerId \ s.retiringWorkerIds.erase workerId =
          s.activeWorkerIds \ s.retiringWorkerIds := by
        ext id
        simp only [Finset.mem_sdiff, Finset.mem_erase] at hnot ⊢
        by_cases hid : id = workerId
        · subst hid
          tauto
        · tauto
      simp only [workers, hset]
    refine ⟨⟨Finset.erase_subset_erase _ h.placed.subset,
      fun id hid => h.placed.fresh id (Finset.mem_of_mem_erase hid)⟩,fun hf => ?_,fun hr => ?_⟩
    · simp only [h.idle hf, Finset.erase_empty]
    · rw [hw hr]
      exact h.bounded hr

theorem autoscale_idle {cfg : Config} {s : RedisQueueConsumer} (o : Observation) (hp : Placed s)
    (h : s.activeWorkerIds = ∅) : maybeAutoscale cfg s o = (s,none) := by
  have heff : s.effectiveWorkerCount = 0 := by rw [hp.effective, workers_idle h]
  unfold maybeAutoscale
  simp only [heff, if_true]
  split <;> rfl

theorem Placed.scaled {s : RedisQueueConsumer} (h : Placed s) (now desired : ℤ) :
    Placed (scaled s now desired) := ⟨h.subset,h.fresh⟩

theorem Sound.lag {cfg : Config} {s : RedisQueueConsumer} (h : Sound cfg s) (o : Observation) :
    Sound cfg (maybeAutoscale cfg s o).1 := by
  cases hr : s.isRunning with
  | false =>
    rw [autoscale_idle o h.placed (h.idle hr)]
    exact h
  | true =>
    obtain ⟨hlow,hhigh⟩ := h.bounded hr
    rcases autoscale_cases o h.placed hlow hhigh with ⟨n,he,_⟩ | ⟨d,he,hlt,hmax,_⟩ | ⟨he,hdown⟩
    · rw [he]
      exact ⟨⟨h.placed.subset,h.placed.fresh⟩,h.idle,h.bounded⟩
    · rw [he]
      obtain ⟨hp,hw,hrun,_⟩ := (h.placed.scaled o.now d).spawn_many (d-workers s).toNat
      refine ⟨hp,fun hf => ?_,fun _ => ?_⟩
      · rw [hrun] at hf
        exact absurd hf (by simp [Autoscaler.scaled, hr])
      · have hsame : workers (scaled s o.now d) = workers s := rfl
        rw [hw, hsame]
        omega
    · rw [he]
      have hmin : cfg.minWorkers < workers s := by
        rw [← h.placed.effective]
        exact hdown.2.2.2.2
      have hone := cfg.one_le_min
      obtain ⟨workerId,hnew⟩ := newest_isSome (show 0 < workers s by omega)
      have hrun : (retireOneWorker (scaled s o.now (workers s-1))).isRunning = s.isRunning := by
        unfold retireOneWorker
        split <;> rfl
      refine ⟨(h.placed.scaled o.now _).retire,fun hf => ?_,fun _ => ?_⟩
      · rw [hrun, hr] at hf
        cases hf
      · have hsame : workers (scaled s o.now (workers s-1)) = workers s := rfl
        by_cases hagain : workerId ∈ s.retiringWorkerIds
        · rw [retire_again (s := scaled s o.now (workers s-1)) hnew hagain, hsame]
          omega
        · rw [workers_retire (s := scaled s o.now (workers s-1)) hnew hagain, hsame]
          omega

theorem Sound.step {cfg : Config} {s : RedisQueueConsumer} (h : Sound cfg s) (e : Event) :
    Sound cfg (step cfg s e) := by
  cases e with
  | start => exact h.start
  | stop =>
    exact ⟨⟨Finset.Subset.refl _,fun id hid => by simp [Autoscaler.step, stop] at hid⟩,
      fun _ => rfl,fun hf => by cases hf⟩
  | lag o => exact h.lag o
  | loopEnds workerId => exact h.loopEnds workerId

theorem sound_run (cfg : Config) (es : List Event) : Sound cfg (run (step cfg) es created) :=
  run_invariant (fun _ e _ h => h.step e) es created (meets_any _ es created) (sound_created cfg)

theorem decision_iff {cfg : Config} {s : RedisQueueConsumer} (h : Sound cfg s) (e : Event) :
    ((decided cfg s e).isSome → workers (step cfg s e) = (step cfg s e).desiredWorkerCount) ↔
      NewestStays cfg s e := by
  cases e with
  | lag o =>
    simp only [decided, step, NewestStays]
    cases hr : s.isRunning with
    | false =>
      have heff : s.effectiveWorkerCount = 0 := by
        rw [h.placed.effective, workers_idle (h.idle hr)]
      have hone := cfg.one_le_min
      rw [autoscale_idle o h.placed (h.idle hr)]
      refine iff_of_true (fun hs => by cases hs) (fun hdown => ?_)
      have hlt := hdown.2.2.2.2
      omega
    | true =>
      obtain ⟨hlow,hhigh⟩ := h.bounded hr
      rcases autoscale_cases o h.placed hlow hhigh with ⟨n,he,hnot⟩ | ⟨d,he,hlt,_,hnot⟩ | ⟨he,hdown⟩
      · rw [he]
        exact iff_of_true (fun hs => by cases hs) (fun hdown => absurd hdown hnot)
      · rw [he]
        refine iff_of_true (fun _ => ?_) (fun hdown => absurd hdown hnot)
        obtain ⟨_,hw,_,hd⟩ := (h.placed.scaled o.now d).spawn_many (d-workers s).toNat
        have hsame : workers (scaled s o.now d) = workers s := rfl
        have hdesired : (scaled s o.now d).desiredWorkerCount = d := rfl
        rw [hw, hd, hsame, hdesired]
        omega
      · rw [he]
        have hmin : cfg.minWorkers < workers s := by
          rw [← h.placed.effective]
          exact hdown.2.2.2.2
        have hone := cfg.one_le_min
        obtain ⟨workerId,hnew⟩ := newest_isSome (show 0 < workers s by omega)
        have hdesired : (retireOneWorker (scaled s o.now (workers s-1))).desiredWorkerCount =
            workers s-1 := by
          unfold retireOneWorker
          split <;> rfl
        have hsame : workers (scaled s o.now (workers s-1)) = workers s := rfl
        simp only [hdesired, hnew, Option.mem_def, Option.some.injEq, Option.isSome_some, true_imp_iff,
          forall_eq', hdown]
        by_cases hagain : workerId ∈ s.retiringWorkerIds
        · rw [retire_again (s := scaled s o.now (workers s-1)) hnew hagain, hsame]
          refine iff_of_false (by omega) (fun hn => hn hagain)
        · rw [workers_retire (s := scaled s o.now (workers s-1)) hnew hagain, hsame]
          exact iff_of_true rfl hagain
  | _ => exact iff_of_true (fun hs => by cases hs) trivial

/-- The number of workers follows the decisions exactly in the runs whose
scale-downs find the newest worker not retiring; the bounds hold in all. -/
theorem steered_iff (cfg : Config) (es : List Event) :
    Steered cfg es ↔ Meets (step cfg) (NewestStays cfg) es created := by
  rw [meets_iff_split]
  constructor
  · rintro ⟨h,_⟩ pre e post he
    have hs := h pre e post he
    rw [run_append] at hs
    exact (decision_iff (sound_run cfg pre) e).mp hs
  · intro h
    refine ⟨fun pre e post he => ?_,fun pre _ hr => (sound_run cfg pre).bounded hr⟩
    rw [run_append]
    exact (decision_iff (sound_run cfg pre) e).mpr (h pre e post he)

def threeWorkers : Config where
  workerCount := 3
  minWorkers := 1
  maxWorkers := 5
  lagTargetMs := 1000
  lagScaleUpMs := 2000
  lagCriticalMs := 5000
  lagScaleDownStableChecks := 1
  scaleCooldownMs := 30000
  dbScaleUpBlockSaturationPct := 80
  one_le_min := by decide
  min_le_max := by decide

/-- Two scale-downs while the first retired worker is still blocked: nobody
is retired by the second. -/
theorem scale_down_lost : ¬∀ cfg es, Steered cfg es := by
  intro h
  have hs := (h threeWorkers [.start,.lag ⟨30000,10,0,0⟩,.lag ⟨60000,10,0,0⟩]).1
    [.start,.lag ⟨30000,10,0,0⟩] _ [] rfl
  revert hs
  decide +kernel

end Iotistica.Autoscaler
