import Iotistica.GuardedRun
import Iotistica.DriftDetector

/-!
# Bounded memory of the drift detector

The type frequencies and the missing streaks belong to baseline fields, so
the cap on the baseline bounds them; every other map asks `canTrackInMap`
before it grows, except `newFieldFirstSeen`. All collections stay within
the cap in every run in which that map has room for each new field that is
recorded in it, restarts included.
-/

set_option autoImplicit false

namespace Iotistica.DriftBounds
open Iotistica Iotistica.GuardedRun Iotistica.DriftSchema Iotistica.DriftDetector

def baselineKeys (d : Detector) : List String :=
  match d.baseline with
  | none => []
  | some baseline => baseline.keys

structure Coherent (baseline : List String) (typeFreq : OrderedMap String TypeFrequency)
    (streaks counts tombstones : OrderedMap String ℕ) : Prop where
  typeFreq : typeFreq.keys ⊆ baseline
  streaks : streaks.keys ⊆ baseline
  counts : ∀ field ∈ baseline, field ∉ counts.keys
  tombstones : ∀ field ∈ baseline, field ∉ tombstones.keys

def CoherentSaved (p : PersistedBaselineState) : Prop :=
  Coherent p.baselineFields.keys p.baselineTypeFreq p.missingStreakByField p.newFieldCounts
    p.tombstones

structure Capped (d : Detector) : Prop where
  baseline : ∀ baseline ∈ d.baseline, baseline.size ≤ d.options.maxTrackedFields
  warmupFieldCounts : d.warmupFieldCounts.size ≤ d.options.maxTrackedFields
  warmupTypeFreq : d.warmupTypeFreq.size ≤ d.options.maxTrackedFields
  newFieldCounts : d.newFieldCounts.size ≤ d.options.maxTrackedFields
  newFieldFirstSeen : d.newFieldFirstSeen.size ≤ d.options.maxTrackedFields
  newFieldTypeFreq : d.newFieldTypeFreq.size ≤ d.options.maxTrackedFields
  tombstones : d.tombstones.size ≤ d.options.maxTrackedFields
  alerts : d.lastAlertAtBySignature.size ≤ d.options.maxTrackedFields

structure Inv (d : Detector) : Prop where
  coherent : Coherent (baselineKeys d) d.baselineTypeFreq d.missingStreakByField d.newFieldCounts
    d.tombstones
  warming : d.baseline = none → d.newFieldCounts.keys = [] ∧ d.tombstones.keys = []
  saved : ∀ p ∈ d.saved, CoherentSaved p
  capped : Capped d

/-- The ten collections within the cap, and no baseline field counted as
new or buried. -/
structure WithinBounds (d : Detector) : Prop where
  capped : Capped d
  baselineTypeFreq : d.baselineTypeFreq.size ≤ d.options.maxTrackedFields
  missingStreakByField : d.missingStreakByField.size ≤ d.options.maxTrackedFields
  counts : ∀ field ∈ baselineKeys d, field ∉ d.newFieldCounts.keys
  tombstones : ∀ field ∈ baselineKeys d, field ∉ d.tombstones.keys

theorem withinBounds_of_inv {d : Detector} (h : Inv d) : WithinBounds d := by
  have hsub : ∀ {β : Type} (m : OrderedMap String β), m.keys ⊆ baselineKeys d →
      m.size ≤ d.options.maxTrackedFields := by
    intro β m hm
    unfold baselineKeys at hm
    split at hm
    · have : m.keys = [] := List.subset_nil.mp hm
      rw [OrderedMap.size_eq, this]
      exact Nat.zero_le _
    · rename_i baseline hb
      exact (OrderedMap.size_le_of_keys_subset hm).trans (h.capped.baseline baseline hb)
  exact ⟨h.capped,hsub _ h.coherent.typeFreq,hsub _ h.coherent.streaks,h.coherent.counts,
    h.coherent.tombstones⟩

theorem tracked_size {β : Type} {cap : ℕ} {m : OrderedMap String β} {field : String} (v : β)
    (hc : canTrackInMap cap m field = true) (hs : m.size ≤ cap) : (m.set field v).size ≤ cap := by
  rw [OrderedMap.size_set]
  simp only [canTrackInMap, Bool.or_eq_true, OrderedMap.has_iff, decide_eq_true_eq] at hc
  split
  · exact hs
  · rename_i hn
    exact hc.resolve_left hn

theorem incrementCount_size {cap : ℕ} {m : OrderedMap String ℕ} (field : String)
    (hs : m.size ≤ cap) : (incrementCount cap m field).size ≤ cap := by
  unfold incrementCount
  split
  · exact hs
  · rename_i hc
    exact tracked_size _ (by simpa using hc) hs

theorem mem_incrementCount {cap : ℕ} {m : OrderedMap String ℕ} {field k : String}
    (h : k ∈ (incrementCount cap m field).keys) : k = field ∨ k ∈ m.keys := by
  unfold incrementCount at h
  split at h
  · exact Or.inr h
  · simpa using h

theorem recordTypeFrequency_size {cap : ℕ} {m : OrderedMap String TypeFrequency} (field : String)
    (types : List ValueType) (hs : m.size ≤ cap) :
    (recordTypeFrequency cap m field types).size ≤ cap := by
  unfold recordTypeFrequency
  split
  · exact hs
  · rename_i hc
    exact tracked_size _ (by simpa using hc) hs

theorem mem_recordTypeFrequency {cap : ℕ} {m : OrderedMap String TypeFrequency}
    {field k : String} {types : List ValueType}
    (h : k ∈ (recordTypeFrequency cap m field types).keys) : k = field ∨ k ∈ m.keys := by
  unfold recordTypeFrequency at h
  split at h
  · exact Or.inr h
  · simpa using h

theorem Capped.frame {d : Detector} (h : Capped d) (batches seen : ℕ)
    (typeFreq : OrderedMap String TypeFrequency) (streaks : OrderedMap String ℕ)
    (saved : Option PersistedBaselineState) :
    Capped { d with
      totalBatches := batches, warmupSeen := seen, baselineTypeFreq := typeFreq,
      missingStreakByField := streaks, saved := saved } :=
  ⟨h.baseline,h.warmupFieldCounts,h.warmupTypeFreq,h.newFieldCounts,h.newFieldFirstSeen,
    h.newFieldTypeFreq,h.tombstones,h.alerts⟩

theorem persistBaselineState_inv (fails : Detector → Bool) {d : Detector} (h : Inv d) :
    Inv (persistBaselineState fails d) := by
  unfold persistBaselineState
  split
  · exact h
  · rename_i baseline hb
    split
    · exact h
    · have hk : baselineKeys d = baseline.keys := by simp [baselineKeys, hb]
      have hc := h.coherent
      rw [hk] at hc
      refine ⟨h.coherent,h.warming,?_,h.capped.frame _ _ _ _ _⟩
      rintro _ ⟨⟩
      exact hc

theorem warmField_inv (ex : ExtractedSchema) {d : Detector} (field : String) (h : Inv d) :
    Inv (warmField ex d field) := by
  have hc := h.capped
  exact ⟨h.coherent,h.warming,h.saved,⟨hc.baseline,incrementCount_size field hc.warmupFieldCounts,
    recordTypeFrequency_size field _ hc.warmupTypeFreq,hc.newFieldCounts,hc.newFieldFirstSeen,
    hc.newFieldTypeFreq,hc.tombstones,hc.alerts⟩⟩

theorem warmFields_inv (ex : ExtractedSchema) (fields : List String) {d : Detector} (h : Inv d) :
    Inv (fields.foldl (warmField ex) d) ∧ (fields.foldl (warmField ex) d).baseline = d.baseline := by
  induction fields generalizing d with
  | nil => exact ⟨h,rfl⟩
  | cons field fields ih => exact ih (warmField_inv ex field h)

theorem selectBaseline_bounds (cap : ℕ) (required : ℤ) (typeFreq : OrderedMap String TypeFrequency)
    (entries : List (String × ℕ)) (acc : KeySet × OrderedMap String TypeFrequency)
    (hs : acc.1.size ≤ cap) (hk : acc.2.keys ⊆ acc.1.keys) :
    (selectBaseline cap required typeFreq entries acc).1.size ≤ cap ∧
      (selectBaseline cap required typeFreq entries acc).2.keys ⊆
        (selectBaseline cap required typeFreq entries acc).1.keys := by
  induction entries generalizing acc with
  | nil => exact ⟨hs,hk⟩
  | cons entry entries ih =>
    obtain ⟨field,count⟩ := entry
    simp only [selectBaseline]
    split_ifs with hr hfull
    · exact ih acc hs hk
    · exact ⟨hs,hk⟩
    · apply ih
      · have hsize := OrderedMap.size_set acc.1 field ()
        change (acc.1.set field ()).size ≤ cap
        split at hsize <;> omega
      · intro k hkm
        rw [OrderedMap.mem_add]
        split at hkm
        · exact Or.inr (hk hkm)
        · rcases (OrderedMap.mem_set ..).mp hkm with rfl | hkm
          · exact Or.inl rfl
          · exact Or.inr (hk hkm)

theorem learnBaseline_inv (fails : Detector → Bool) (ex : ExtractedSchema) {d : Detector}
    (hb : d.baseline = none) (h : Inv d) : Inv (learnBaseline fails ex d) := by
  have h0 : Inv { d with warmupSeen := d.warmupSeen+1 } :=
    ⟨h.coherent,h.warming,h.saved,h.capped.frame _ _ _ _ _⟩
  obtain ⟨hw,hbase⟩ := warmFields_inv ex ex.fields.keys h0
  simp only [learnBaseline]
  generalize ex.fields.keys.foldl (warmField ex) { d with warmupSeen := d.warmupSeen+1 } = seen at *
  have hnone : seen.baseline = none := hbase.trans hb
  split
  · exact hw
  · apply persistBaselineState_inv
    have hfreq : seen.baselineTypeFreq.keys ⊆ (.empty : KeySet).keys := by
      simpa [baselineKeys, hnone] using hw.coherent.typeFreq
    obtain ⟨hsize,hkeys⟩ := selectBaseline_bounds seen.options.maxTrackedFields
      (max 1 ⌈(seen.options.warmupBatches : ℚ)*seen.options.minFieldPresenceRatio⌉)
      seen.warmupTypeFreq seen.warmupFieldCounts.entries (.empty,seen.baselineTypeFreq)
      (Nat.zero_le _) hfreq
    have hstreak : seen.missingStreakByField.keys = [] := by
      have := hw.coherent.streaks
      simpa [baselineKeys, hnone] using this
    obtain ⟨hcounts,htombs⟩ := hw.warming hnone
    have hc := hw.capped
    refine ⟨⟨hkeys,by simp [hstreak],by simp [hcounts],by simp [htombs]⟩,by simp,hw.saved,
      ⟨?_,hc.warmupFieldCounts,hc.warmupTypeFreq,hc.newFieldCounts,hc.newFieldFirstSeen,
        hc.newFieldTypeFreq,hc.tombstones,hc.alerts⟩⟩
    rintro _ ⟨⟩
    exact hsize

def CanRecord (d : Detector) (field : String) : Prop :=
  ∀ baseline ∈ d.baseline, field ∉ baseline.keys →
    canTrackInMap d.options.maxTrackedFields d.newFieldFirstSeen field = true

theorem trackNewField_inv (ex : ExtractedSchema) {d : Detector} {baseline : KeySet} (field : String)
    (hb : d.baseline = some baseline) (hn : field ∉ baseline.keys) (hr : CanRecord d field)
    (h : Inv d) : Inv (trackNewField ex d field) := by
  have hk : baselineKeys d = baseline.keys := by simp [baselineKeys, hb]
  have hc := h.capped
  have hco := h.coherent
  refine ⟨⟨hco.typeFreq,hco.streaks,?_,?_⟩,by simp [trackNewField, hb],h.saved,
    ⟨hc.baseline,hc.warmupFieldCounts,hc.warmupTypeFreq,incrementCount_size field hc.newFieldCounts,
      ?_,recordTypeFrequency_size field _ hc.newFieldTypeFreq,
      (OrderedMap.size_delete_le _ _).trans hc.tombstones,hc.alerts⟩⟩
  · intro k hkb hkc
    change k ∈ baselineKeys d at hkb
    rcases mem_incrementCount hkc with rfl | hkc
    · exact hn (hk ▸ hkb)
    · exact hco.counts k hkb hkc
  · intro k hkb hkt
    exact hco.tombstones k hkb ((OrderedMap.mem_delete ..).mp hkt).2
  · change (if _ then _ else _ : OrderedMap String ℕ).size ≤ _
    split
    · exact hc.newFieldFirstSeen
    · exact tracked_size _ (hr baseline hb hn) hc.newFieldFirstSeen

theorem promote_inv {d : Detector} {baseline : KeySet} (field : String)
    (hb : d.baseline = some baseline) (hroom : baseline.size < d.options.maxTrackedFields)
    (ht : field ∉ d.tombstones.keys) (h : Inv d) : Inv (promote baseline d field) := by
  have hk : baselineKeys d = baseline.keys := by simp [baselineKeys, hb]
  have hc := h.capped
  have hco := h.coherent
  rw [hk] at hco
  have hsize : (baseline.add field).size ≤ d.options.maxTrackedFields := by
    have := OrderedMap.size_set baseline field ()
    change (baseline.set field ()).size ≤ _
    split at this <;> omega
  have hsub : ∀ {β : Type} {m : OrderedMap String β} (v : β), m.keys ⊆ baseline.keys →
      (m.set field v).keys ⊆ (baseline.add field).keys := by
    intro β m v hm k hkm
    rw [OrderedMap.mem_add]
    rcases (OrderedMap.mem_set ..).mp hkm with rfl | hkm
    · exact Or.inl rfl
    · exact Or.inr (hm hkm)
  have hweak : ∀ {β : Type} {m : OrderedMap String β}, m.keys ⊆ baseline.keys →
      m.keys ⊆ (baseline.add field).keys :=
    fun hm k hkm => (OrderedMap.mem_add ..).mpr (Or.inr (hm hkm))
  have hcounts : ∀ k ∈ (baseline.add field).keys, k ∉ (d.newFieldCounts.delete field).keys := by
    intro k hkb hkc
    obtain ⟨hne,hkc⟩ := (OrderedMap.mem_delete ..).mp hkc
    rcases (OrderedMap.mem_add ..).mp hkb with rfl | hkb
    · exact hne rfl
    · exact hco.counts k hkb hkc
  have htombs : ∀ k ∈ (baseline.add field).keys, k ∉ d.tombstones.keys := by
    intro k hkb
    rcases (OrderedMap.mem_add ..).mp hkb with rfl | hkb
    · exact ht
    · exact hco.tombstones k hkb
  have hcap : ∀ b ∈ some (baseline.add field), b.size ≤ d.options.maxTrackedFields := by
    rintro _ ⟨⟩
    exact hsize
  have hdel := fun {β : Type} (m : OrderedMap String β) => OrderedMap.size_delete_le m field
  unfold promote
  split
  · exact ⟨⟨hweak hco.typeFreq,hsub 0 hco.streaks,hcounts,htombs⟩,by simp,h.saved,
      ⟨hcap,hc.warmupFieldCounts,hc.warmupTypeFreq,(hdel _).trans hc.newFieldCounts,
        (hdel _).trans hc.newFieldFirstSeen,hc.newFieldTypeFreq,hc.tombstones,hc.alerts⟩⟩
  · exact ⟨⟨hsub _ hco.typeFreq,hsub 0 hco.streaks,hcounts,htombs⟩,by simp,h.saved,
      ⟨hcap,hc.warmupFieldCounts,hc.warmupTypeFreq,(hdel _).trans hc.newFieldCounts,
        (hdel _).trans hc.newFieldFirstSeen,(hdel _).trans hc.newFieldTypeFreq,hc.tombstones,
        hc.alerts⟩⟩

theorem handleNewField_inv (fails : Detector → Bool) (ex : ExtractedSchema) {d : Detector}
    {baseline : KeySet} (field : String) (hb : d.baseline = some baseline)
    (hn : field ∉ baseline.keys) (hr : CanRecord d field) (h : Inv d) :
    Inv (handleNewField fails ex baseline d field) := by
  have ht := trackNewField_inv ex field hb hn hr h
  simp only [handleNewField]
  split
  · exact ht
  · rename_i hp
    apply persistBaselineState_inv
    refine promote_inv field hb ?_ ?_ ht
    · simp only [shouldPromote, Bool.not_eq_true, Bool.not_eq_false', Bool.and_eq_true,
        decide_eq_true_eq] at hp
      exact hp.2
    · intro hm
      exact ((OrderedMap.mem_delete ..).mp hm).1 rfl

theorem checkTypeDrift_inv (ex : ExtractedSchema) {d : Detector} (field : String)
    (hf : field ∈ baselineKeys d) (h : Inv d) : Inv (checkTypeDrift ex d field).1 := by
  have hrec : Inv { d with baselineTypeFreq := (recordTypeFrequency d.options.maxTrackedFields
      d.baselineTypeFreq field (ExtractedSchema.typesOf ex field)) } := by
    have hco := h.coherent
    refine ⟨⟨?_,hco.streaks,hco.counts,hco.tombstones⟩,h.warming,h.saved,h.capped.frame _ _ _ _ _⟩
    intro k hk
    rcases mem_recordTypeFrequency hk with rfl | hk
    · exact hf
    · exact hco.typeFreq hk
  simp only [checkTypeDrift]
  split
  · exact h
  · split
    · exact hrec
    · split
      · exact hrec
      · split <;> exact hrec

theorem streak_inv {d : Detector} (field : String) (n : ℕ) (hf : field ∈ baselineKeys d)
    (h : Inv d) : Inv { d with missingStreakByField := d.missingStreakByField.set field n } := by
  have hco := h.coherent
  refine ⟨⟨hco.typeFreq,?_,hco.counts,hco.tombstones⟩,h.warming,h.saved,h.capped.frame _ _ _ _ _⟩
  intro k hk
  rcases (OrderedMap.mem_set ..).mp hk with rfl | hk
  · exact hf
  · exact hco.streaks hk

theorem observeField_inv (fails : Detector → Bool) (ex : ExtractedSchema)
    (acc : Detector × Findings) (field : String) (hr : CanRecord acc.1 field) (h : Inv acc.1) :
    Inv (observeField fails ex acc field).1 := by
  simp only [observeField]
  split
  · exact h
  · rename_i baseline hb
    by_cases hf : field ∈ baseline.keys
    · have hin : field ∈ baselineKeys acc.1 := by simpa [baselineKeys, hb] using hf
      simp only [OrderedMap.has, hf, decide_true, Bool.not_true, Bool.false_eq_true, if_false]
      exact checkTypeDrift_inv ex field hin (streak_inv field 0 hin h)
    · simp only [OrderedMap.has, hf, decide_false, Bool.not_false, if_true]
      exact handleNewField_inv fails ex field hb hf hr h

theorem retire_inv {d : Detector} {baseline : KeySet} (expected : String)
    (hb : d.baseline = some baseline) (h : Inv d) : Inv (retire baseline d expected) := by
  have hk : baselineKeys d = baseline.keys := by simp [baselineKeys, hb]
  have hc := h.capped
  have hco := h.coherent
  rw [hk] at hco
  have hsub : ∀ {β : Type} {m : OrderedMap String β}, m.keys ⊆ baseline.keys →
      (m.delete expected).keys ⊆ (baseline.delete expected).keys := by
    intro β m hm k hkm
    obtain ⟨hne,hkm⟩ := (OrderedMap.mem_delete ..).mp hkm
    exact (OrderedMap.mem_delete ..).mpr ⟨hne,hm hkm⟩
  refine ⟨⟨hsub hco.typeFreq,hsub hco.streaks,?_,?_⟩,by simp [retire],h.saved,
    ⟨?_,hc.warmupFieldCounts,hc.warmupTypeFreq,hc.newFieldCounts,hc.newFieldFirstSeen,
      hc.newFieldTypeFreq,?_,hc.alerts⟩⟩
  · intro k hkb
    exact hco.counts k ((OrderedMap.mem_delete ..).mp hkb).2
  · intro k hkb hkt
    obtain ⟨hne,hkb⟩ := (OrderedMap.mem_delete ..).mp hkb
    simp only [retire] at hkt
    split at hkt
    · rcases (OrderedMap.mem_set ..).mp hkt with rfl | hkt
      · exact hne rfl
      · exact hco.tombstones k hkb hkt
    · exact hco.tombstones k hkb hkt
  · rintro _ ⟨⟩
    exact (OrderedMap.size_delete_le _ _).trans (hc.baseline baseline hb)
  · simp only [retire]
    split
    · rename_i ht
      exact tracked_size _ ht hc.tombstones
    · exact hc.tombstones

theorem persistBaselineState_baseline (fails : Detector → Bool) (d : Detector) :
    (persistBaselineState fails d).baseline = d.baseline := by
  unfold persistBaselineState
  split
  · rfl
  · split <;> rfl

theorem handleMissingField_inv (fails : Detector → Bool) (acc : Detector × Findings)
    (expected : String) (he : expected ∈ baselineKeys acc.1) (h : Inv acc.1) :
    Inv (handleMissingField fails acc expected).1 ∧ ∀ k ∈ baselineKeys acc.1, k ≠ expected →
      k ∈ baselineKeys (handleMissingField fails acc expected).1 := by
  simp only [handleMissingField]
  split
  · rename_i hb
    simp [baselineKeys, hb] at he
  · rename_i baseline hb
    have hs := streak_inv expected ((acc.1.missingStreakByField.get? expected).getD 0+1) he h
    split
    · refine ⟨persistBaselineState_inv fails (retire_inv expected ?_ hs),?_⟩
      · exact hb
      intro k hk hne
      simp only [baselineKeys, persistBaselineState_baseline, retire]
      rw [OrderedMap.mem_delete]
      exact ⟨hne,by simpa [baselineKeys, hb] using hk⟩
    · exact ⟨hs,fun k hk _ => hk⟩

theorem missingFields_inv (fails : Detector → Bool) (expected : List String)
    (acc : Detector × Findings) (hn : expected.Nodup) (he : ∀ k ∈ expected, k ∈ baselineKeys acc.1)
    (h : Inv acc.1) : Inv (expected.foldl (handleMissingField fails) acc).1 := by
  induction expected generalizing acc with
  | nil => exact h
  | cons e expected ih =>
    obtain ⟨hout,hn⟩ := List.nodup_cons.mp hn
    obtain ⟨hinv,hkeep⟩ := handleMissingField_inv fails acc e (he e (by simp)) h
    apply ih _ hn _ hinv
    intro k hk
    exact hkeep k (he k (by simp [hk])) (fun e' => hout (e' ▸ hk))

theorem touchCooldown_inv (now : ℤ) {d : Detector} (signature : String) (h : Inv d) :
    Inv (touchCooldown now d signature) := by
  unfold touchCooldown
  split
  · exact h
  · rename_i ht
    have hc := h.capped
    exact ⟨h.coherent,h.warming,h.saved,⟨hc.baseline,hc.warmupFieldCounts,hc.warmupTypeFreq,
      hc.newFieldCounts,hc.newFieldFirstSeen,hc.newFieldTypeFreq,hc.tombstones,
      tracked_size _ (by simpa using ht) hc.alerts⟩⟩

theorem filterByCooldown_inv (now : ℤ) (kind : String) (fields : List String) {d : Detector}
    (h : Inv d) : Inv (filterByCooldown now kind fields d).1 := by
  induction fields generalizing d with
  | nil => exact h
  | cons field fields ih =>
    simp only [filterByCooldown]
    split
    · exact ih h
    · exact ih (touchCooldown_inv now _ h)

theorem touchAll_inv (now : ℤ) (drifts : List TypeDrift) {d : Detector} (h : Inv d) :
    Inv (drifts.foldl (fun d t => touchCooldown now d ("type:"++t.field)) d) := by
  induction drifts generalizing d with
  | nil => exact h
  | cons t drifts ih => exact ih (touchCooldown_inv now _ h)

theorem report_inv (now : ℤ) {d : Detector} (f : Findings) (h : Inv d) :
    Inv (report now d f).1 :=
  touchAll_inv now _ (filterByCooldown_inv now "missing" f.missingFields
    (filterByCooldown_inv now "new" f.newFields h))

inductive Event where
  | observe (fails : Detector → Bool) (now : ℤ) (messages : List Json)
  | restart (options : DriftDetectorOptions)

def step (d : Detector) : Event → Detector
  | .observe fails now messages => (observe fails now messages d).1
  | .restart options => start options d.saved

/-- In the course of a check, `newFieldFirstSeen` has room whenever a field
outside the baseline is recorded in it. -/
def Roomy (d : Detector) : Event → Prop
  | .observe fails _ messages =>
    d.options.enabled = true → checkDue (countBatch d) = true →
      Meets (observeField fails (extractSchema d.options messages))
        (fun acc field => CanRecord acc.1 field)
        (extractSchema d.options messages).fields.keys (countBatch d,⟨[],[],[]⟩)
  | .restart _ => True

structure SavedWithin (cap : ℕ) (p : PersistedBaselineState) : Prop where
  baselineFields : p.baselineFields.size ≤ cap
  newFieldCounts : p.newFieldCounts.size ≤ cap
  newFieldFirstSeen : p.newFieldFirstSeen.size ≤ cap
  newFieldTypeFreq : p.newFieldTypeFreq.size ≤ cap
  tombstones : p.tombstones.size ≤ cap

/-- The saved baseline is within the bounds of the options it is loaded under. -/
def Loadable (d : Detector) : Event → Prop
  | .observe .. => True
  | .restart options => ∀ p ∈ d.saved, SavedWithin options.maxTrackedFields p

theorem start_inv (options : DriftDetectorOptions) (saved : Option PersistedBaselineState)
    (hs : ∀ p ∈ saved, CoherentSaved p)
    (hl : ∀ p ∈ saved, SavedWithin options.maxTrackedFields p) : Inv (start options saved) := by
  unfold start restorePersistedBaseline
  cases saved with
  | none =>
    refine ⟨⟨?_,?_,?_,?_⟩,fun _ => ⟨rfl,rfl⟩,hs,⟨?_,?_,?_,?_,?_,?_,?_,?_⟩⟩ <;>
      simp [blank, baselineKeys]
  | some p =>
    have hw := hl p rfl
    refine ⟨hs p rfl,?_,hs,⟨?_,Nat.zero_le _,Nat.zero_le _,hw.newFieldCounts,hw.newFieldFirstSeen,
      hw.newFieldTypeFreq,hw.tombstones,Nat.zero_le _⟩⟩
    · rintro ⟨⟩
    · rintro _ ⟨⟩
      exact hw.baselineFields

theorem observe_inv (fails : Detector → Bool) (now : ℤ) (messages : List Json) {d : Detector}
    (hr : Roomy d (.observe fails now messages)) (h : Inv d) :
    Inv (observe fails now messages d).1 := by
  have hcount : Inv (countBatch d) :=
    ⟨h.coherent,h.warming,h.saved,h.capped.frame _ _ _ _ _⟩
  simp only [observe]
  split
  · exact h
  · rename_i hen
    split
    · exact h
    · split
      · rename_i hb
        exact learnBaseline_inv fails _ hb hcount
      · split
        · rename_i hdue
          have hobs : Inv ((extractSchema d.options messages).fields.keys.foldl
              (observeField fails (extractSchema d.options messages))
              (countBatch d,⟨[],[],[]⟩)).1 := by
            have hen' : d.options.enabled = true := by
              simp only [Bool.or_eq_true, Bool.not_eq_true', not_or, Bool.not_eq_false] at hen
              exact hen.1
            exact run_invariant (fun acc field => observeField_inv fails _ acc field) _ _
              (hr hen' hdue) hcount
          simp only [detectDrift]
          apply report_inv
          apply missingFields_inv
          · split
            · exact List.nodup_nil
            · exact (OrderedMap.nodup _).sublist List.filter_sublist
          · intro k hk
            split at hk
            · simp at hk
            · rename_i hb
              simp only [baselineKeys, hb]
              exact List.mem_of_mem_filter hk
          · exact hobs
        · exact hcount

theorem step_inv (d : Detector) (e : Event) (hok : Loadable d e ∧ Roomy d e) (h : Inv d) :
    Inv (step d e) := by
  cases e with
  | observe fails now messages => exact observe_inv fails now messages hok.2 h
  | restart options => exact start_inv options d.saved h.saved hok.1

/-- From a first start, through any batches, save failures and restarts
within bounds: every collection stays within the cap and the baseline apart
from the candidates and the tombstones, as long as each first sight finds
room. -/
theorem drift_memory_bounded_when_roomy (o : DriftDetectorOptions) (es : List Event)
    (hm : Meets step (fun d e => Loadable d e ∧ Roomy d e) es (start o none)) :
    WithinBounds (run step es (start o none)) :=
  withinBounds_of_inv (run_invariant step_inv es _ hm (start_inv o none (by simp) (by simp)))

def oneField : DriftDetectorOptions := { warmupBatches := 1, maxTrackedFields := 1 }

def batchOf (key : String) : Event := .observe (fun _ => false) 0 [.obj [(key,.num 1)]]

theorem drift_memory_bounded_one_candidate :
    WithinBounds (run step [batchOf "a",batchOf "b",.restart oneField] (start oneField none)) := by
  apply drift_memory_bounded_when_roomy oneField [batchOf "a",batchOf "b",.restart oneField]
  refine ⟨⟨trivial,fun _ _ => ?_⟩,⟨trivial,fun _ _ => ?_⟩,⟨?_,trivial⟩,trivial⟩
  · refine ⟨?_,trivial⟩
    rintro _ ⟨⟩
  · refine ⟨?_,trivial⟩
    rintro _ _ _
    decide
  · have hall : ∀ p ∈ (step (step (start oneField none) (batchOf "a")) (batchOf "b")).saved,
        p.baselineFields.size ≤ 1 ∧ p.newFieldCounts.size ≤ 1 ∧ p.newFieldFirstSeen.size ≤ 1 ∧
          p.newFieldTypeFreq.size ≤ 1 ∧ p.tombstones.size ≤ 1 := by decide +kernel
    intro p hp
    obtain ⟨hb,hc,hf,ht,hto⟩ := hall p hp
    exact ⟨hb,hc,hf,ht,hto⟩

/-- A third name after the baseline field: the map of first sights holds two
entries where one is allowed. -/
theorem first_sights_exceed_cap :
    ¬∀ es, Meets step Loadable es (start oneField none) →
      WithinBounds (run step es (start oneField none)) := by
  intro h
  have hw := h [batchOf "a",batchOf "b",batchOf "c"] ⟨trivial,trivial,trivial,trivial⟩
  have hsize := hw.capped.newFieldFirstSeen
  revert hsize
  decide +kernel

end Iotistica.DriftBounds
