import Mathlib.Data.List.TakeWhile
import Iotistica.DriftCooldown

/-!
# Promotion of stable fields

A field outside the baseline is promoted once it has been seen by enough
checks and makes up enough of the batches since its first sight. The batches
count one by one, the checks run every Nth batch. A field that is in every
batch is seen by `k` checks in `(k-1)N+1` batches, and this share only falls:
it is promoted at the first check that could promote it, or never.
-/

set_option autoImplicit false

namespace Iotistica.DriftPromotion
open Iotistica Iotistica.GuardedRun Iotistica.DriftSchema Iotistica.DriftDetector
  Iotistica.DriftCooldown

structure SameFor (field : String) (d d' : Detector) : Prop where
  options : d'.options = d.options
  totalBatches : d'.totalBatches = d.totalBatches
  counts : d'.newFieldCounts.get? field = d.newFieldCounts.get? field
  firstSeen : d'.newFieldFirstSeen.get? field = d.newFieldFirstSeen.get? field
  baseline : d'.baseline.map (fun b => b.has field) = d.baseline.map (fun b => b.has field)

theorem SameFor.refl (field : String) (d : Detector) : SameFor field d d := ⟨rfl,rfl,rfl,rfl,rfl⟩

theorem SameFor.trans {field : String} {d d' d'' : Detector} (h : SameFor field d d')
    (h' : SameFor field d' d'') : SameFor field d d'' :=
  ⟨h'.options.trans h.options,h'.totalBatches.trans h.totalBatches,h'.counts.trans h.counts,
    h'.firstSeen.trans h.firstSeen,h'.baseline.trans h.baseline⟩

theorem sameFor_foldl {α β : Type} {field : String} {f : Detector × β → α → Detector × β}
    {xs : List α} (h : ∀ acc, ∀ x ∈ xs, SameFor field acc.1 (f acc x).1) (acc : Detector × β) :
    SameFor field acc.1 (xs.foldl f acc).1 := by
  induction xs generalizing acc with
  | nil => exact SameFor.refl field _
  | cons x xs ih =>
    have hrest := ih (fun acc y hy => h acc y (List.mem_cons_of_mem x hy)) (f acc x)
    exact (h acc x List.mem_cons_self).trans hrest

theorem persistBaselineState_same (field : String) (fails : Detector → Bool) (d : Detector) :
    SameFor field d (persistBaselineState fails d) := by
  unfold persistBaselineState
  split
  · exact SameFor.refl field d
  · split <;> exact ⟨rfl,rfl,rfl,rfl,rfl⟩

theorem get?_incrementCount_ne {cap : ℕ} {m : OrderedMap String ℕ} {g field : String}
    (h : field ≠ g) : (incrementCount cap m g).get? field = m.get? field := by
  unfold incrementCount
  split
  · rfl
  · rw [OrderedMap.get?_set, if_neg h]

theorem has_set_ne {β : Type} (m : OrderedMap String β) (v : β) {g field : String}
    (h : field ≠ g) : (m.set g v).has field = m.has field := by
  rw [Bool.eq_iff_iff, OrderedMap.has_iff, OrderedMap.has_iff, OrderedMap.mem_set]
  simp [h]

theorem has_delete_ne {β : Type} (m : OrderedMap String β) {g field : String}
    (h : field ≠ g) : (m.delete g).has field = m.has field := by
  rw [Bool.eq_iff_iff, OrderedMap.has_iff, OrderedMap.has_iff, OrderedMap.mem_delete]
  simp [h]

theorem trackNewField_same (ex : ExtractedSchema) (d : Detector) {g field : String}
    (h : field ≠ g) : SameFor field d (trackNewField ex d g) := by
  refine ⟨rfl,rfl,get?_incrementCount_ne h,?_,rfl⟩
  change (if d.newFieldFirstSeen.has g then d.newFieldFirstSeen
    else d.newFieldFirstSeen.set g d.totalBatches).get? field = _
  split
  · rfl
  · rw [OrderedMap.get?_set, if_neg h]

theorem promote_same {d : Detector} {baseline : KeySet} (hb : d.baseline = some baseline)
    {g field : String} (h : field ≠ g) : SameFor field d (promote baseline d g) := by
  have hsame : SameFor field d { d with
      baseline := some (baseline.add g)
      missingStreakByField := d.missingStreakByField.set g 0
      newFieldCounts := d.newFieldCounts.delete g
      newFieldFirstSeen := d.newFieldFirstSeen.delete g } := by
    refine ⟨rfl,rfl,?_,?_,?_⟩
    · exact (OrderedMap.get?_delete _ _ _).trans (if_neg h)
    · exact (OrderedMap.get?_delete _ _ _).trans (if_neg h)
    · rw [hb]
      exact congrArg some (has_set_ne baseline () h)
  simp only [promote]
  split
  · exact hsame
  · exact ⟨hsame.options,hsame.totalBatches,hsame.counts,hsame.firstSeen,hsame.baseline⟩

theorem observeField_same (fails : Detector → Bool) (ex : ExtractedSchema)
    (acc : Detector × Findings) {g field : String} (h : field ≠ g) :
    SameFor field acc.1 (observeField fails ex acc g).1 := by
  simp only [observeField]
  split
  · exact SameFor.refl field _
  · rename_i baseline hb
    split
    · simp only [handleNewField]
      have htrack := trackNewField_same ex acc.1 h
      split
      · exact htrack
      · have hb' : (trackNewField ex acc.1 g).baseline = some baseline := hb
        exact (htrack.trans (promote_same hb' h)).trans (persistBaselineState_same field fails _)
    · simp only [checkTypeDrift]
      split
      · exact ⟨rfl,rfl,rfl,rfl,rfl⟩
      · split
        · exact ⟨rfl,rfl,rfl,rfl,rfl⟩
        · split
          · exact ⟨rfl,rfl,rfl,rfl,rfl⟩
          · split <;> exact ⟨rfl,rfl,rfl,rfl,rfl⟩

theorem handleMissingField_same (fails : Detector → Bool) (acc : Detector × Findings)
    {g field : String} (h : field ≠ g) :
    SameFor field acc.1 (handleMissingField fails acc g).1 := by
  simp only [handleMissingField]
  split
  · exact SameFor.refl field _
  · rename_i baseline hb
    split
    · change SameFor field acc.1 (persistBaselineState fails (retire baseline _ g))
      refine SameFor.trans ?_ (persistBaselineState_same field fails _)
      refine ⟨rfl,rfl,rfl,rfl,?_⟩
      rw [hb]
      exact congrArg some (has_delete_ne baseline h)
    · exact ⟨rfl,rfl,rfl,rfl,rfl⟩

theorem touchCooldown_same (field : String) (now : ℤ) (d : Detector) (sig : String) :
    SameFor field d (touchCooldown now d sig) := by
  unfold touchCooldown
  split <;> exact ⟨rfl,rfl,rfl,rfl,rfl⟩

theorem filterByCooldown_same (field : String) (now : ℤ) (kind : String) (fields : List String)
    (d : Detector) : SameFor field d (filterByCooldown now kind fields d).1 := by
  induction fields generalizing d with
  | nil => exact SameFor.refl field d
  | cons g fields ih =>
    simp only [filterByCooldown]
    split
    · exact ih d
    · exact (touchCooldown_same field now d _).trans (ih _)

theorem report_same (field : String) (now : ℤ) (d : Detector) (f : Findings) :
    SameFor field d (report now d f).1 := by
  have htouch : ∀ (drifts : List TypeDrift) (d : Detector),
      SameFor field d (drifts.foldl (fun d t => touchCooldown now d ("type:"++t.field)) d) := by
    intro drifts
    induction drifts with
    | nil => exact SameFor.refl field
    | cons t drifts ih => exact fun d => (touchCooldown_same field now d _).trans (ih _)
  exact ((filterByCooldown_same field now "new" f.newFields d).trans
    (filterByCooldown_same field now "missing" f.missingFields _)).trans (htouch _ _)

def share (count first total : ℕ) : ℚ :=
  if 0 < (total : ℤ)-first+1 then (count : ℚ)/(((total : ℤ)-first+1 : ℤ) : ℚ) else 0

theorem observeField_known (fails : Detector → Bool) (ex : ExtractedSchema)
    (acc : Detector × Findings) {field : String}
    (h : acc.1.baseline.map (fun b => b.has field) = some true) :
    SameFor field acc.1 (observeField fails ex acc field).1 := by
  obtain ⟨baseline,hb,hhas⟩ := Option.map_eq_some_iff.mp h
  simp only [observeField, hb, hhas, Bool.not_true, Bool.false_eq_true, if_false, checkTypeDrift]
  split
  · exact ⟨rfl,rfl,rfl,rfl,by rw [hb]⟩
  · split
    · exact ⟨rfl,rfl,rfl,rfl,by rw [hb]⟩
    · split
      · exact ⟨rfl,rfl,rfl,rfl,by rw [hb]⟩
      · split <;> exact ⟨rfl,rfl,rfl,rfl,by rw [hb]⟩

structure Judged (field : String) (d d' : Detector) (count first : ℕ) : Prop where
  options : d'.options = d.options
  totalBatches : d'.totalBatches = d.totalBatches
  promoted : (d.options.adaptivePromotionBatches ≤ count ∧
      d.options.adaptivePromotionRatio ≤ share count first d.totalBatches) →
    d'.baseline.map (fun b => b.has field) = some true
  kept : ¬(d.options.adaptivePromotionBatches ≤ count ∧
      d.options.adaptivePromotionRatio ≤ share count first d.totalBatches) →
    d'.baseline.map (fun b => b.has field) = some false ∧
      d'.newFieldCounts.get? field = some count ∧ d'.newFieldFirstSeen.get? field = some first

def RoomAt (field : String) (d : Detector) : Prop :=
  canTrackInMap d.options.maxTrackedFields d.newFieldCounts field = true ∧
    ∀ b ∈ d.baseline, b.size < d.options.maxTrackedFields

theorem get?_firstSeen (ex : ExtractedSchema) (d : Detector) (field : String) :
    (trackNewField ex d field).newFieldFirstSeen.get? field =
      some ((d.newFieldFirstSeen.get? field).getD d.totalBatches) := by
  change (if d.newFieldFirstSeen.has field then d.newFieldFirstSeen
    else d.newFieldFirstSeen.set field d.totalBatches).get? field = _
  cases hf : d.newFieldFirstSeen.get? field with
  | none =>
    have hout := OrderedMap.not_mem_keys_of_get? hf
    rw [if_neg (by rw [OrderedMap.has_iff]; exact hout), OrderedMap.get?_set, if_pos rfl]
    rfl
  | some first =>
    have hin : field ∈ d.newFieldFirstSeen.keys := by
      have hmem := (OrderedMap.get?_eq_some_iff _ _ _).mp hf
      exact List.mem_map.mpr ⟨(field,first),hmem,rfl⟩
    rw [if_pos (by rw [OrderedMap.has_iff]; exact hin), hf]
    rfl

theorem get?_counts (ex : ExtractedSchema) {d : Detector} {field : String}
    (h : canTrackInMap d.options.maxTrackedFields d.newFieldCounts field = true) :
    (trackNewField ex d field).newFieldCounts.get? field =
      some ((d.newFieldCounts.get? field).getD 0+1) := by
  change (incrementCount _ _ _).get? field = _
  rw [incrementCount, h]
  exact (OrderedMap.get?_set _ _ _ _).trans (if_pos rfl)

theorem shouldPromote_iff {d : Detector} {baseline : KeySet} {field : String} {count first : ℕ}
    (hcount : d.newFieldCounts.get? field = some count)
    (hfirst : d.newFieldFirstSeen.get? field = some first)
    (hsize : baseline.size < d.options.maxTrackedFields) :
    shouldPromote d baseline field = true ↔ d.options.adaptivePromotionBatches ≤ count ∧
      d.options.adaptivePromotionRatio ≤ share count first d.totalBatches := by
  unfold shouldPromote share
  simp only [hcount, hfirst, Option.getD_some, Bool.and_eq_true, decide_eq_true_eq, hsize,
    and_true]

theorem observeField_judged (fails : Detector → Bool) (ex : ExtractedSchema)
    (acc : Detector × Findings) {field : String}
    (hout : acc.1.baseline.map (fun b => b.has field) = some false) (hroom : RoomAt field acc.1) :
    Judged field acc.1 (observeField fails ex acc field).1
      ((acc.1.newFieldCounts.get? field).getD 0+1)
      ((acc.1.newFieldFirstSeen.get? field).getD acc.1.totalBatches) := by
  obtain ⟨baseline,hb,hhas⟩ := Option.map_eq_some_iff.mp hout
  have hcount := get?_counts ex hroom.1
  have hfirst := get?_firstSeen ex acc.1 field
  have hiff := shouldPromote_iff hcount hfirst (hroom.2 baseline hb)
  simp only [observeField, hb, hhas, Bool.not_false, if_true, handleNewField]
  by_cases hpromote : shouldPromote (trackNewField ex acc.1 field) baseline field = true
  · rw [hpromote]
    have hsame := persistBaselineState_same field fails
      (promote baseline (trackNewField ex acc.1 field) field)
    have hfields : (promote baseline (trackNewField ex acc.1 field) field).options =
          acc.1.options ∧
        (promote baseline (trackNewField ex acc.1 field) field).totalBatches =
          acc.1.totalBatches ∧
        (promote baseline (trackNewField ex acc.1 field) field).baseline =
          some (baseline.add field) := by
      simp only [promote]
      split <;> exact ⟨rfl,rfl,rfl⟩
    refine ⟨hsame.options.trans hfields.1,hsame.totalBatches.trans hfields.2.1,?_,?_⟩
    · intro _
      refine hsame.baseline.trans ?_
      rw [hfields.2.2]
      simp
    · intro hnot
      exact absurd (hiff.mp hpromote) hnot
  · rw [Bool.not_eq_true] at hpromote
    rw [hpromote]
    refine ⟨rfl,rfl,?_,?_⟩
    · intro heligible
      rw [hiff.mpr heligible] at hpromote
      cases hpromote
    · intro _
      exact ⟨hout,hcount,hfirst⟩

def comesTo (fails : Detector → Bool) (ex : ExtractedSchema) (field : String) (d : Detector) :
    Detector × Findings :=
  (ex.fields.keys.takeWhile (fun g => g != field)).foldl (observeField fails ex) (d,⟨[],[],[]⟩)

theorem split_at {α : Type} [DecidableEq α] {xs : List α} {x : α} (h : x ∈ xs) :
    ∃ after, xs = xs.takeWhile (fun y => y != x)++x::after := by
  induction xs with
  | nil => cases h
  | cons y xs ih =>
    by_cases hy : y = x
    · subst hy
      exact ⟨xs,by simp⟩
    · obtain ⟨after,hafter⟩ := ih ((List.mem_cons.mp h).resolve_left (Ne.symm hy))
      refine ⟨after,?_⟩
      rw [List.takeWhile_cons_of_pos (by simpa using hy), List.cons_append, ← hafter]

/-- Up to the field, and from it on, a check does not touch what is known of
it. -/
theorem detectDrift_around (fails : Detector → Bool) (now : ℤ) (ex : ExtractedSchema)
    (d : Detector) {field : String} (h : field ∈ ex.fields.keys) :
    SameFor field d (comesTo fails ex field d).1 ∧
      SameFor field (observeField fails ex (comesTo fails ex field d) field).1
        (detectDrift fails now ex d).1 := by
  obtain ⟨after,hsplit⟩ := split_at h
  have hnodup := ex.fields.nodup
  change ex.fields.keys.Nodup at hnodup
  rw [hsplit] at hnodup
  have hafter : field ∉ after := (List.nodup_cons.mp (List.nodup_append.mp hnodup).2.1).1
  constructor
  · refine sameFor_foldl (f := observeField fails ex) ?_ (d,⟨[],[],[]⟩)
    intro acc g hg
    have hne := List.mem_takeWhile_imp hg
    apply observeField_same
    rintro rfl
    simp at hne
  · rw [detectDrift_eq]
    refine SameFor.trans ?_ (report_same field now _ _)
    simp only [check]
    have hobserved : SameFor field
        (observeField fails ex (comesTo fails ex field d) field).1
        (ex.fields.keys.foldl (observeField fails ex) (d,⟨[],[],[]⟩)).1 := by
      rw [hsplit, List.foldl_append, List.foldl_cons]
      refine sameFor_foldl (f := observeField fails ex) ?_ _
      intro acc g hg
      apply observeField_same
      rintro rfl
      exact hafter hg
    refine hobserved.trans (sameFor_foldl (f := handleMissingField fails) ?_ _)
    intro acc g hg
    apply handleMissingField_same
    intro he
    split at hg
    · cases hg
    · have hmissing := (List.mem_filter.mp hg).2
      rw [← he, (OrderedMap.has_iff _ _).mpr h] at hmissing
      cases hmissing

theorem detectDrift_known (fails : Detector → Bool) (now : ℤ) (ex : ExtractedSchema)
    {d : Detector} {field : String} (h : field ∈ ex.fields.keys)
    (hin : d.baseline.map (fun b => b.has field) = some true) :
    SameFor field d (detectDrift fails now ex d).1 := by
  obtain ⟨hbefore,hafter⟩ := detectDrift_around fails now ex d h
  have hat := observeField_known fails ex (comesTo fails ex field d)
    (hbefore.baseline.trans hin)
  exact (hbefore.trans hat).trans hafter

theorem detectDrift_judged (fails : Detector → Bool) (now : ℤ) (ex : ExtractedSchema)
    {d : Detector} {field : String} (h : field ∈ ex.fields.keys)
    (hout : d.baseline.map (fun b => b.has field) = some false)
    (hroom : RoomAt field (comesTo fails ex field d).1) :
    Judged field d (detectDrift fails now ex d).1
      ((d.newFieldCounts.get? field).getD 0+1)
      ((d.newFieldFirstSeen.get? field).getD d.totalBatches) := by
  obtain ⟨hbefore,hafter⟩ := detectDrift_around fails now ex d h
  have hat := observeField_judged fails ex (comesTo fails ex field d)
    (hbefore.baseline.trans hout) hroom
  rw [hbefore.counts, hbefore.firstSeen, hbefore.totalBatches] at hat
  obtain ⟨hoptions,htotal,hpromoted,hkept⟩ := hat
  rw [hbefore.options, hbefore.totalBatches] at hpromoted hkept
  refine ⟨hafter.options.trans (hoptions.trans hbefore.options),
    hafter.totalBatches.trans (htotal.trans hbefore.totalBatches),?_,?_⟩
  · intro heligible
    exact hafter.baseline.trans (hpromoted heligible)
  · intro hnot
    obtain ⟨hbaseline,hcounts,hfirst⟩ := hkept hnot
    exact ⟨hafter.baseline.trans hbaseline,hafter.counts.trans hcounts,
      hafter.firstSeen.trans hfirst⟩

def counted (d : Detector) (o : Observation) : Bool :=
  d.options.enabled && !o.messages.isEmpty &&
    !decide ((extractSchema d.options o.messages).fields.size = 0)

def checked (d : Detector) (o : Observation) : Bool :=
  counted d o && d.baseline.isSome && checkDue (countBatch d)

theorem step_uncounted {d : Detector} {o : Observation} (h : counted d o = false) :
    step d o = d := by
  unfold counted at h
  simp only [step, observe]
  split
  · rfl
  · rename_i hrun
    split
    · rfl
    · rename_i hsize
      simp only [Bool.or_eq_true, Bool.not_eq_true', not_or, Bool.not_eq_false] at hrun
      simp [hrun.1, hrun.2, hsize] at h

theorem step_warming {d : Detector} {o : Observation} (h : counted d o = true)
    (hb : d.baseline = none) :
    step d o = learnBaseline o.fails (extractSchema d.options o.messages) (countBatch d) := by
  unfold counted at h
  simp only [Bool.and_eq_true, Bool.not_eq_true', decide_eq_false_iff_not] at h
  have hb' : (countBatch d).baseline = none := hb
  simp only [step, observe, h.1.1, h.1.2, h.2, hb', Bool.not_true, Bool.or_self, if_false,
    Bool.false_eq_true]

theorem step_counted {d : Detector} {o : Observation} (h : counted d o = true)
    {baseline : KeySet} (hb : d.baseline = some baseline) :
    step d o = if checkDue (countBatch d) then
      (detectDrift o.fails o.now (extractSchema d.options o.messages) (countBatch d)).1
    else countBatch d := by
  unfold counted at h
  simp only [Bool.and_eq_true, Bool.not_eq_true', decide_eq_false_iff_not] at h
  have hb' : (countBatch d).baseline = some baseline := hb
  simp only [step, observe, h.1.1, h.1.2, h.2, hb', Bool.not_true, Bool.or_self, if_false,
    Bool.false_eq_true]
  split <;> rfl

def Present (field : String) (d : Detector) (o : Observation) : Prop :=
  counted d o = true → field ∈ (extractSchema d.options o.messages).fields.keys

/-- In a check, the field has room in the counts and the baseline has room
for one more. -/
def HasRoom (field : String) (d : Detector) (o : Observation) : Prop :=
  checked d o = true → RoomAt field
    (comesTo o.fails (extractSchema d.options o.messages) field (countBatch d)).1

instance (field : String) (d : Detector) : Decidable (RoomAt field d) :=
  inferInstanceAs (Decidable (_ ∧ _))

instance (field : String) (d : Detector) (o : Observation) : Decidable (Present field d o) :=
  inferInstanceAs (Decidable (_ → _))

instance (field : String) (d : Detector) (o : Observation) : Decidable (HasRoom field d o) :=
  inferInstanceAs (Decidable (_ → _))

def interval (o : DriftDetectorOptions) : ℤ := max 1 o.checkIntervalBatches

theorem checkDue_iff (d : Detector) :
    checkDue d = true ↔ interval d.options ∣ (d.totalBatches : ℤ) := by
  unfold checkDue interval
  simp only [Bool.not_eq_true', Bool.and_eq_false_iff, decide_eq_false_iff_not, not_lt, not_not]
  constructor
  · rintro (hone | hdvd)
    · rw [le_antisymm hone (le_max_left 1 _)]
      exact one_dvd _
    · exact Int.dvd_of_emod_eq_zero hdvd
  · intro hdvd
    exact Or.inr (Int.emod_eq_zero_of_dvd hdvd)

def checksSeen : List Observation → Detector → ℕ
  | [], _ => 0
  | o::os, d => (if checked d o then 1 else 0)+checksSeen os (step d o)

/-- What `j` checks of a field in every batch ask for. -/
def Eligible (o : DriftDetectorOptions) (j : ℕ) : Prop :=
  o.adaptivePromotionBatches ≤ j ∧
    o.adaptivePromotionRatio*(((j : ℤ)-1)*interval o+1 : ℤ) ≤ j

/-- `k` checks have seen the field, and none could promote it. -/
structure Waiting (field : String) (d : Detector) (k : ℕ) : Prop where
  outside : d.baseline.map (fun b => b.has field) = some false
  unseen : k = 0 → d.newFieldCounts.get? field = none ∧ d.newFieldFirstSeen.get? field = none
  seen : 0 < k → d.newFieldCounts.get? field = some k ∧
    ∃ first : ℕ, d.newFieldFirstSeen.get? field = some first ∧ interval d.options ∣ first ∧
      first+((k : ℤ)-1)*interval d.options ≤ d.totalBatches ∧
      d.totalBatches < first+(k : ℤ)*interval d.options
  ineligible : ∀ j, 1 ≤ j → j ≤ k → ¬Eligible d.options j

structure Promoted (field : String) (d : Detector) (k : ℕ) : Prop where
  inside : d.baseline.map (fun b => b.has field) = some true
  eligible : ∃ j, 1 ≤ j ∧ j ≤ k ∧ Eligible d.options j

theorem share_eligible {o : DriftDetectorOptions} {first total j : ℕ}
    (h : (total : ℤ) = first+((j : ℤ)-1)*interval o) (hj : 1 ≤ j) :
    (o.adaptivePromotionBatches ≤ j ∧ o.adaptivePromotionRatio ≤ share j first total) ↔
      Eligible o j := by
  have hinterval : 1 ≤ interval o := le_max_left 1 _
  have hwindow : (total : ℤ)-first+1 = ((j : ℤ)-1)*interval o+1 := by
    rw [h]
    ring
  have hpos : 0 < ((j : ℤ)-1)*interval o+1 := by
    have hnonneg : 0 ≤ ((j : ℤ)-1)*interval o := mul_nonneg (by omega) (by omega)
    omega
  unfold Eligible share
  rw [hwindow, if_pos hpos, le_div_iff₀ (by exact_mod_cast hpos)]

theorem countBatch_waiting {field : String} {d : Detector} {k : ℕ} (h : Waiting field d k)
    (hdue : checkDue (countBatch d) = false) : Waiting field (countBatch d) k := by
  refine ⟨h.outside,h.unseen,?_,h.ineligible⟩
  intro hk
  obtain ⟨hcounts,first,hfirst,hdvd,hle,hlt⟩ := h.seen hk
  refine ⟨hcounts,first,hfirst,hdvd,?_,?_⟩
  · change first+((k : ℤ)-1)*interval d.options ≤ ((d.totalBatches+1 : ℕ) : ℤ)
    push_cast
    omega
  · change ((d.totalBatches+1 : ℕ) : ℤ) < first+(k : ℤ)*interval d.options
    have hne : ((d.totalBatches+1 : ℕ) : ℤ) ≠ first+(k : ℤ)*interval d.options := by
      intro he
      have hdue' : checkDue (countBatch d) = true := by
        rw [checkDue_iff]
        change interval d.options ∣ ((d.totalBatches+1 : ℕ) : ℤ)
        rw [he]
        exact dvd_add hdvd (Dvd.intro_left _ rfl)
      rw [hdue] at hdue'
      cases hdue'
    push_cast at hne ⊢
    omega

theorem Waiting.sighting {field : String} {d : Detector} {k : ℕ} (h : Waiting field d k)
    (hdue : checkDue (countBatch d) = true) :
    ∃ first : ℕ,
      ((countBatch d).newFieldFirstSeen.get? field).getD (countBatch d).totalBatches = first ∧
      interval d.options ∣ first ∧
      ((d.totalBatches+1 : ℕ) : ℤ) = first+(((k+1 : ℕ) : ℤ)-1)*interval d.options ∧
      ((countBatch d).newFieldCounts.get? field).getD 0+1 = k+1 := by
  have hinterval : 1 ≤ interval d.options := le_max_left 1 _
  have hdvd : interval d.options ∣ ((d.totalBatches+1 : ℕ) : ℤ) := (checkDue_iff _).mp hdue
  rcases Nat.eq_zero_or_pos k with rfl | hk
  · obtain ⟨hcounts,hfirst⟩ := h.unseen rfl
    refine ⟨d.totalBatches+1,?_,hdvd,by simp,?_⟩
    · exact congrArg (fun x => Option.getD x (d.totalBatches+1)) hfirst
    · exact congrArg (fun x => Option.getD x 0+1) hcounts
  · obtain ⟨hcounts,first,hfirst,hfd,hle,hlt⟩ := h.seen hk
    refine ⟨first,?_,hfd,?_,?_⟩
    · exact congrArg (fun x => Option.getD x (d.totalBatches+1)) hfirst
    · have hgap : interval d.options ∣
          ((d.totalBatches+1 : ℕ) : ℤ)-(first+((k : ℤ)-1)*interval d.options) :=
        dvd_sub hdvd (dvd_add hfd (Dvd.intro_left _ rfl))
      obtain ⟨q,hq⟩ := hgap
      have hq1 : q = 1 := by
        push_cast at hq
        nlinarith
      rw [hq1] at hq
      push_cast at hq ⊢
      linarith
    · exact congrArg (fun x => Option.getD x 0+1) hcounts

/-- The next check sees the field for the `k+1`st time, in as many batches as
the interval makes of it. -/
theorem detectDrift_waiting {field : String} {d : Detector} {k : ℕ} (h : Waiting field d k)
    (fails : Detector → Bool) (now : ℤ) (ex : ExtractedSchema) (hf : field ∈ ex.fields.keys)
    (hdue : checkDue (countBatch d) = true)
    (hroom : RoomAt field (comesTo fails ex field (countBatch d)).1) :
    Waiting field (detectDrift fails now ex (countBatch d)).1 (k+1) ∨
      Promoted field (detectDrift fails now ex (countBatch d)).1 (k+1) := by
  have hinterval : 1 ≤ interval d.options := le_max_left 1 _
  obtain ⟨first,hfirst,hfirstdvd,htotal,hcount⟩ := h.sighting hdue
  have hout : (countBatch d).baseline.map (fun b => b.has field) = some false := h.outside
  have hjudged := detectDrift_judged fails now ex hf hout hroom
  rw [hfirst, hcount] at hjudged
  obtain ⟨hoptions,hbatches,hpromoted,hkept⟩ := hjudged
  have hiff := share_eligible htotal (Nat.le_add_left 1 k)
  by_cases heligible : Eligible d.options (k+1)
  · right
    refine ⟨hpromoted (hiff.mpr heligible),k+1,Nat.le_add_left 1 k,Nat.le_refl _,?_⟩
    rw [hoptions]
    exact heligible
  · left
    obtain ⟨houtside,hcounts,hfirst'⟩ := hkept (fun hyes => heligible (hiff.mp hyes))
    refine ⟨houtside,by omega,?_,?_⟩
    · intro _
      rw [hoptions, hbatches]
      refine ⟨hcounts,first,hfirst',hfirstdvd,?_,?_⟩
      · exact htotal.symm.le
      · change ((d.totalBatches+1 : ℕ) : ℤ) < first+((k+1 : ℕ) : ℤ)*interval d.options
        rw [htotal]
        push_cast
        linarith
    · intro j hj hjk
      rw [hoptions]
      rcases Nat.lt_or_ge j (k+1) with hlt | hge
      · exact h.ineligible j hj (by omega)
      · obtain rfl : j = k+1 := by omega
        exact heligible

def Standing (field : String) (d : Detector) (k : ℕ) : Prop :=
  Waiting field d k ∨ Promoted field d k

theorem Promoted.of_same {field : String} {d d' : Detector} {k : ℕ} (h : Promoted field d k)
    (hs : SameFor field d d') (n : ℕ) : Promoted field d' (k+n) := by
  obtain ⟨j,hj,hjk,he⟩ := h.eligible
  refine ⟨hs.baseline.trans h.inside,j,hj,by omega,?_⟩
  rw [hs.options]
  exact he

theorem baseline_of_standing {field : String} {d : Detector} {k : ℕ} (h : Standing field d k) :
    ∃ baseline, d.baseline = some baseline := by
  rcases h with h | h
  · obtain ⟨baseline,hb,-⟩ := Option.map_eq_some_iff.mp h.outside
    exact ⟨baseline,hb⟩
  · obtain ⟨baseline,hb,-⟩ := Option.map_eq_some_iff.mp h.inside
    exact ⟨baseline,hb⟩

theorem step_standing {field : String} {d : Detector} {o : Observation} {k : ℕ}
    (h : Standing field d k) (hp : Present field d o) (hr : HasRoom field d o) :
    Standing field (step d o) (k+if checked d o then 1 else 0) := by
  obtain ⟨baseline,hb⟩ := baseline_of_standing h
  cases hcounted : counted d o with
  | false =>
    have hunchecked : checked d o = false := by simp [checked, hcounted]
    rw [hunchecked, step_uncounted hcounted]
    exact h
  | true =>
    have hf := hp hcounted
    have hchecked : checked d o = checkDue (countBatch d) := by simp [checked, hcounted, hb]
    rw [step_counted hcounted hb, hchecked]
    cases hdue : checkDue (countBatch d) with
    | false =>
      rcases h with h | h
      · exact Or.inl (countBatch_waiting h hdue)
      · exact Or.inr ⟨h.inside,h.eligible⟩
    | true =>
      rcases h with h | h
      · exact detectDrift_waiting h o.fails o.now _ hf hdue (hr (hchecked.trans hdue))
      · have hin : (countBatch d).baseline.map (fun b => b.has field) = some true := h.inside
        have hcount : Promoted field (countBatch d) k := ⟨h.inside,h.eligible⟩
        exact Or.inr (hcount.of_same (detectDrift_known o.fails o.now _ hf hin) 1)

theorem run_standing {field : String} (os : List Observation) {d : Detector} {k : ℕ}
    (h : Standing field d k)
    (hos : Meets step (fun d o => Present field d o ∧ HasRoom field d o) os d) :
    Standing field (run step os d) (k+checksSeen os d) := by
  induction os generalizing d k with
  | nil => exact h
  | cons o os ih =>
    have hstep := ih (step_standing h hos.1.1 hos.1.2) hos.2
    rw [Nat.add_assoc] at hstep
    exact hstep

def Untracked (field : String) (d : Detector) : Prop :=
  d.newFieldCounts.get? field = none ∧ d.newFieldFirstSeen.get? field = none

def Absent (field : String) (d : Detector) (o : Observation) : Prop :=
  d.baseline.isSome → field ∉ (extractSchema d.options o.messages).fields.keys

theorem Untracked.of_same {field : String} {d d' : Detector} (h : Untracked field d)
    (hs : SameFor field d d') : Untracked field d' :=
  ⟨hs.counts.trans h.1,hs.firstSeen.trans h.2⟩

theorem learnBaseline_untracked {field : String} (fails : Detector → Bool) (ex : ExtractedSchema)
    {d : Detector} (h : Untracked field d) : Untracked field (learnBaseline fails ex d) := by
  have hwarm : ∀ (fields : List String) (d : Detector), Untracked field d →
      Untracked field (fields.foldl (warmField ex) d) := by
    intro fields
    induction fields with
    | nil => exact fun d h => h
    | cons g fields ih => exact fun d h => ih (warmField ex d g) h
  have hseen := hwarm ex.fields.keys { d with warmupSeen := d.warmupSeen+1 } h
  simp only [learnBaseline]
  split
  · exact hseen
  · refine Untracked.of_same ?_ (persistBaselineState_same field fails _)
    exact hseen

theorem handleMissingField_untracked {field : String} (fails : Detector → Bool)
    (fields : List String) (acc : Detector × Findings) (h : Untracked field acc.1) :
    Untracked field (fields.foldl (handleMissingField fails) acc).1 := by
  induction fields generalizing acc with
  | nil => exact h
  | cons g fields ih =>
    refine ih _ ?_
    simp only [handleMissingField]
    split
    · exact h
    · split
      · change Untracked field (persistBaselineState fails (retire _ _ g))
        refine Untracked.of_same ?_ (persistBaselineState_same field fails _)
        exact h
      · exact h

theorem step_untracked {field : String} {d : Detector} {o : Observation}
    (h : Untracked field d) (ha : Absent field d o) : Untracked field (step d o) := by
  cases hcounted : counted d o with
  | false =>
    rw [step_uncounted hcounted]
    exact h
  | true =>
    cases hb : d.baseline with
    | none =>
      have hcount : Untracked field (countBatch d) := h
      rw [step_warming hcounted hb]
      exact learnBaseline_untracked o.fails _ hcount
    | some baseline =>
      have hout := ha (by rw [hb]; rfl)
      rw [step_counted hcounted hb]
      split
      · rw [detectDrift_eq]
        refine Untracked.of_same ?_ (report_same field o.now _ _)
        simp only [check]
        apply handleMissingField_untracked
        have hobserved := sameFor_foldl (f := observeField o.fails
          (extractSchema d.options o.messages))
          (fun acc g hg => observeField_same o.fails (extractSchema d.options o.messages) acc
            (fun he : field = g => hout (he ▸ hg))) (countBatch d,(⟨[],[],[]⟩ : Findings))
        have hcount : Untracked field (countBatch d) := h
        exact Untracked.of_same hcount hobserved
      · exact h

theorem run_untracked {field : String} (os : List Observation) {d : Detector}
    (h : Untracked field d) (ha : Meets step (Absent field) os d) :
    Untracked field (run step os d) := by
  induction os generalizing d with
  | nil => exact h
  | cons o os ih => exact ih (step_untracked h ha.1) ha.2

theorem run_options (os : List Observation) (d : Detector) :
    (run step os d).options = d.options := by
  induction os generalizing d with
  | nil => rfl
  | cons o os ih => exact (ih (step d o)).trans (observe_eq d o).1

/-- A run in which a field outside the baseline, new to the detector, is in
every batch from some point on. -/
structure StableRun (o : DriftDetectorOptions) (saved : Option PersistedBaselineState)
    (before after : List Observation) (field : String) : Prop where
  unknown : ∀ p ∈ saved, p.newFieldCounts.get? field = none ∧ p.newFieldFirstSeen.get? field = none
  absent : Meets step (Absent field) before (start o saved)
  outside : (run step before (start o saved)).baseline.map (fun b => b.has field) = some false
  present : Meets step (fun d x => Present field d x ∧ HasRoom field d x) after
    (run step before (start o saved))

/-- The number of checks that see the field. -/
def seenBy (o : DriftDetectorOptions) (saved : Option PersistedBaselineState)
    (before after : List Observation) : ℕ :=
  checksSeen after (run step before (start o saved))

def IsPromoted (d : Detector) (field : String) : Prop :=
  d.baseline.map (fun b => b.has field) = some true

/-- The share of batches at the first check that could promote a field. -/
def RatioMet (o : DriftDetectorOptions) : Prop :=
  o.adaptivePromotionRatio*(((max 1 o.adaptivePromotionBatches-1)*interval o+1 : ℤ) : ℚ) ≤
    (max 1 o.adaptivePromotionBatches : ℤ)

theorem ratio_antitone {r : ℚ} {n i j : ℤ} (hn : 1 ≤ n) (hi : 1 ≤ i) (hij : i ≤ j)
    (h : r*((j-1)*n+1 : ℤ) ≤ j) : r*((i-1)*n+1 : ℤ) ≤ i := by
  have hwindow : ∀ k : ℤ, 1 ≤ k → 0 < (k-1)*n+1 := by
    intro k hk
    have hnonneg : 0 ≤ (k-1)*n := mul_nonneg (by omega) (by omega)
    omega
  have hjpos : (0 : ℚ) < ((j-1)*n+1 : ℤ) := by exact_mod_cast hwindow j (by omega)
  have hipos : (0 : ℚ) < ((i-1)*n+1 : ℤ) := by exact_mod_cast hwindow i hi
  have hcross : j*((i-1)*n+1) ≤ i*((j-1)*n+1) := by nlinarith
  have hcross' : (j : ℚ)*((i-1)*n+1 : ℤ) ≤ i*((j-1)*n+1 : ℤ) := by exact_mod_cast hcross
  have hscaled : r*((i-1)*n+1 : ℤ)*((j-1)*n+1 : ℤ) ≤ i*((j-1)*n+1 : ℤ) := by
    calc r*((i-1)*n+1 : ℤ)*((j-1)*n+1 : ℤ) = r*((j-1)*n+1 : ℤ)*((i-1)*n+1 : ℤ) := by ring
      _ ≤ j*((i-1)*n+1 : ℤ) := mul_le_mul_of_nonneg_right h hipos.le
      _ ≤ i*((j-1)*n+1 : ℤ) := hcross'
  exact le_of_mul_le_mul_right hscaled hjpos

theorem ratioMet_iff {o : DriftDetectorOptions} {k : ℕ} (hk : o.adaptivePromotionBatches ≤ k) :
    (∃ j, 1 ≤ j ∧ j ≤ k ∧ Eligible o j) ↔ 1 ≤ k ∧ RatioMet o := by
  have hinterval : 1 ≤ interval o := le_max_left 1 _
  constructor
  · rintro ⟨j,hj,hjk,hbatches,hratio⟩
    refine ⟨hj.trans hjk,?_⟩
    have hmax : max 1 o.adaptivePromotionBatches ≤ (j : ℤ) :=
      max_le (by exact_mod_cast hj) hbatches
    exact ratio_antitone hinterval (le_max_left 1 _) hmax (by exact_mod_cast hratio)
  · rintro ⟨hk1,hratio⟩
    obtain ⟨j,hj⟩ := Int.eq_ofNat_of_zero_le
      (le_trans zero_le_one (le_max_left 1 o.adaptivePromotionBatches))
    unfold RatioMet at hratio
    have hlow := le_max_left 1 o.adaptivePromotionBatches
    have hbatches := le_max_right 1 o.adaptivePromotionBatches
    have hhigh : max 1 o.adaptivePromotionBatches ≤ (k : ℤ) := max_le (by exact_mod_cast hk1) hk
    rw [hj] at hratio hlow hbatches hhigh
    refine ⟨j,by exact_mod_cast hlow,by exact_mod_cast hhigh,hbatches,?_⟩
    exact_mod_cast hratio

/-- Checks run every second batch. -/
def everySecond (batches : ℤ) : DriftDetectorOptions :=
  { adaptivePromotionBatches := batches, checkIntervalBatches := 2 }

theorem stable_b (batches : ℤ) (n : ℕ)
    (hroom : Meets step (fun d x => Present "key:b" d x ∧ HasRoom "key:b" d x)
      (List.replicate n (seen 0 "b")) (start (everySecond batches) (some oneSaved))) :
    StableRun (everySecond batches) (some oneSaved) [] (List.replicate n (seen 0 "b")) "key:b" where
  unknown := by
    rintro p ⟨⟩
    exact ⟨rfl,rfl⟩
  absent := trivial
  outside := rfl
  present := hroom

end Iotistica.DriftPromotion
