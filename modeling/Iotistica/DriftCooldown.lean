import Iotistica.CooldownMap
import Iotistica.DriftDetector
import Iotistica.GuardedRun

/-!
# The cooldown of drift events

A drift event is held back until the last one of its kind and field is a
cooldown ago. The stamps are kept under a signature of kind and field, in one
map for the three kinds. A signature that the full map has no room for is
reported without a stamp, and again at the next check.
-/

set_option autoImplicit false

namespace Iotistica.DriftCooldown
open Iotistica Iotistica.DriftSchema Iotistica.DriftDetector Iotistica.CooldownMap
  Iotistica.GuardedRun

def limits (o : DriftDetectorOptions) : Limits := ⟨o.maxTrackedFields,o.alertCooldownMs⟩

inductive DriftType where
  | newField
  | missingField
  | typeDrift
  deriving DecidableEq

def driftType : DriftEvent → DriftType
  | .newField _ => .newField
  | .missingField _ => .missingField
  | .typeDrift _ => .typeDrift

def fieldName : DriftEvent → String
  | .newField field => field
  | .missingField field => field
  | .typeDrift drift => drift.field

def kindOf : DriftType → String
  | .newField => "new"
  | .missingField => "missing"
  | .typeDrift => "type"

def signature (kind : DriftType) (field : String) : String := kindOf kind++":"++field

def eventSignature (e : DriftEvent) : String := signature (driftType e) (fieldName e)

theorem signature_inj {kind kind' : DriftType} {field field' : String}
    (h : signature kind field = signature kind' field') : kind = kind' ∧ field = field' := by
  have hlist := congrArg String.toList h
  unfold signature at hlist
  cases kind <;> cases kind' <;>
    simp [kindOf, String.toList_append, String.toList_inj] at hlist ⊢ <;> exact hlist

def check (fails : Detector → Bool) (ex : ExtractedSchema) (d : Detector) : Detector × Findings :=
  let observed := ex.fields.keys.foldl (observeField fails ex) (d,⟨[],[],[]⟩)
  let expected := match observed.1.baseline with
    | none => []
    | some baseline => baseline.keys.filter (fun field => !ex.fields.has field)
  expected.foldl (handleMissingField fails) observed

theorem detectDrift_eq (fails : Detector → Bool) (now : ℤ) (ex : ExtractedSchema) (d : Detector) :
    detectDrift fails now ex d =
      report now (check fails ex d).1 (check fails ex d).2 := rfl

structure Keeps (d d' : Detector) : Prop where
  options : d'.options = d.options
  stamps : d'.lastAlertAtBySignature = d.lastAlertAtBySignature

theorem Keeps.refl (d : Detector) : Keeps d d := ⟨rfl,rfl⟩

theorem Keeps.trans {d d' d'' : Detector} (h : Keeps d d') (h' : Keeps d' d'') : Keeps d d'' :=
  ⟨h'.options.trans h.options,h'.stamps.trans h.stamps⟩

theorem Keeps.after {d d' d'' : Detector} (h' : Keeps d' d'') (h : Keeps d d') : Keeps d d'' :=
  h.trans h'

theorem keeps_foldl {α β : Type} {f : Detector × β → α → Detector × β}
    (h : ∀ acc x, Keeps acc.1 (f acc x).1) (xs : List α) (acc : Detector × β) :
    Keeps acc.1 (xs.foldl f acc).1 := by
  induction xs generalizing acc with
  | nil => exact Keeps.refl _
  | cons x xs ih => exact (h acc x).trans (ih _)

theorem persistBaselineState_keeps (fails : Detector → Bool) (d : Detector) :
    Keeps d (persistBaselineState fails d) := by
  unfold persistBaselineState
  split
  · exact Keeps.refl d
  · split <;> exact ⟨rfl,rfl⟩

theorem promote_keeps (baseline : KeySet) (d : Detector) (field : String) :
    Keeps d (promote baseline d field) := by
  simp only [promote]
  split <;> exact ⟨rfl,rfl⟩

theorem handleNewField_keeps (fails : Detector → Bool) (ex : ExtractedSchema) (baseline : KeySet)
    (d : Detector) (field : String) : Keeps d (handleNewField fails ex baseline d field) := by
  have htrack : Keeps d (trackNewField ex d field) := ⟨rfl,rfl⟩
  simp only [handleNewField]
  split
  · exact htrack
  · exact (htrack.trans (promote_keeps baseline _ field)).trans (persistBaselineState_keeps fails _)

theorem checkTypeDrift_keeps (ex : ExtractedSchema) (d : Detector) (field : String) :
    Keeps d (checkTypeDrift ex d field).1 := by
  simp only [checkTypeDrift]
  split
  · exact Keeps.refl d
  · split
    · exact ⟨rfl,rfl⟩
    · split
      · exact ⟨rfl,rfl⟩
      · split <;> exact ⟨rfl,rfl⟩

theorem observeField_keeps (fails : Detector → Bool) (ex : ExtractedSchema)
    (acc : Detector × Findings) (field : String) :
    Keeps acc.1 (observeField fails ex acc field).1 := by
  simp only [observeField]
  split
  · exact Keeps.refl _
  · split
    · exact handleNewField_keeps fails ex _ _ field
    · exact (checkTypeDrift_keeps ex _ field).after ⟨rfl,rfl⟩

theorem handleMissingField_keeps (fails : Detector → Bool) (acc : Detector × Findings)
    (expected : String) : Keeps acc.1 (handleMissingField fails acc expected).1 := by
  simp only [handleMissingField]
  split
  · exact Keeps.refl _
  · split
    · change Keeps acc.1 (persistBaselineState fails (retire _ _ expected))
      exact (persistBaselineState_keeps fails _).after ⟨rfl,rfl⟩
    · exact ⟨rfl,rfl⟩

theorem check_keeps (fails : Detector → Bool) (ex : ExtractedSchema) (d : Detector) :
    Keeps d (check fails ex d).1 :=
  (keeps_foldl (observeField_keeps fails ex) _ (d,⟨[],[],[]⟩)).trans
    (keeps_foldl (handleMissingField_keeps fails) _ _)

theorem learnBaseline_keeps (fails : Detector → Bool) (ex : ExtractedSchema) (d : Detector) :
    Keeps d (learnBaseline fails ex d) := by
  have hwarm : ∀ (fields : List String) (d : Detector),
      Keeps d (fields.foldl (warmField ex) d) := by
    intro fields
    induction fields with
    | nil => exact Keeps.refl
    | cons field fields ih => exact fun d => (ih (warmField ex d field)).after ⟨rfl,rfl⟩
  have hseen : Keeps d (ex.fields.keys.foldl (warmField ex)
      { d with warmupSeen := d.warmupSeen+1 }) := (hwarm ex.fields.keys _).after ⟨rfl,rfl⟩
  simp only [learnBaseline]
  split
  · exact hseen
  · exact (persistBaselineState_keeps fails _).after ⟨hseen.options,hseen.stamps⟩

theorem observeField_drifts (fails : Detector → Bool) (ex : ExtractedSchema)
    (acc : Detector × Findings) (field : String) :
    ∃ drifts : List TypeDrift, (drifts.map TypeDrift.field).Sublist [field] ∧
      (observeField fails ex acc field).2.typeDrifts = acc.2.typeDrifts++drifts := by
  have hcheck : ∀ d : Detector,
      ((checkTypeDrift ex d field).2.toList.map TypeDrift.field).Sublist [field] := by
    intro d
    simp only [checkTypeDrift]
    split
    · exact List.nil_sublist _
    · split
      · exact List.nil_sublist _
      · split
        · exact List.nil_sublist _
        · split
          · exact List.nil_sublist _
          · exact List.nil_sublist _
          · exact List.Sublist.refl _
  simp only [observeField]
  split
  · exact ⟨[],List.nil_sublist _,(List.append_nil _).symm⟩
  · split
    · exact ⟨[],List.nil_sublist _,(List.append_nil _).symm⟩
    · exact ⟨_,hcheck _,rfl⟩

theorem observeFields_drifts (fails : Detector → Bool) (ex : ExtractedSchema)
    (fields : List String) (acc : Detector × Findings) :
    ∃ drifts : List TypeDrift, (drifts.map TypeDrift.field).Sublist fields ∧
      (fields.foldl (observeField fails ex) acc).2.typeDrifts = acc.2.typeDrifts++drifts := by
  induction fields generalizing acc with
  | nil => exact ⟨[],List.Sublist.slnil,(List.append_nil _).symm⟩
  | cons field fields ih =>
    obtain ⟨first,hfirst,heq⟩ := observeField_drifts fails ex acc field
    obtain ⟨rest,hrest,heqs⟩ := ih (observeField fails ex acc field)
    refine ⟨first++rest,?_,?_⟩
    · rw [List.map_append]
      exact hfirst.append hrest
    · rw [List.foldl_cons, heqs, heq, List.append_assoc]

theorem missingFields_drifts (fails : Detector → Bool) (fields : List String)
    (acc : Detector × Findings) :
    (fields.foldl (handleMissingField fails) acc).2.typeDrifts = acc.2.typeDrifts := by
  induction fields generalizing acc with
  | nil => rfl
  | cons field fields ih =>
    rw [List.foldl_cons, ih]
    simp only [handleMissingField]
    split
    · rfl
    · split <;> split <;> rfl

theorem check_drifts_nodup (fails : Detector → Bool) (ex : ExtractedSchema) (d : Detector) :
    ((check fails ex d).2.typeDrifts.map TypeDrift.field).Nodup := by
  obtain ⟨drifts,hsub,heq⟩ := observeFields_drifts fails ex ex.fields.keys (d,⟨[],[],[]⟩)
  have hdrifts : (check fails ex d).2.typeDrifts = drifts := by
    simp only [check]
    rw [missingFields_drifts, heq]
    rfl
  rw [hdrifts]
  exact ex.fields.nodup.sublist hsub

def attempts (now : ℤ) (f : Findings) : List (ℤ × String) :=
  f.newFields.map (fun field => (now,signature .newField field))++
  f.missingFields.map (fun field => (now,signature .missingField field))++
  f.typeDrifts.map (fun drift => (now,signature .typeDrift drift.field))

theorem touchCooldown_stamps (now : ℤ) (d : Detector) (sig : String) :
    (touchCooldown now d sig).options = d.options ∧
      (touchCooldown now d sig).lastAlertAtBySignature =
        touch (limits d.options) d.lastAlertAtBySignature now sig := by
  unfold touchCooldown touch
  change _ ∧ _ = if canTrackInMap d.options.maxTrackedFields d.lastAlertAtBySignature sig
    then _ else _
  cases canTrackInMap d.options.maxTrackedFields d.lastAlertAtBySignature sig <;> exact ⟨rfl,rfl⟩

theorem filterByCooldown_eq (now : ℤ) (kind : DriftType) (fields : List String) (d : Detector) :
    (filterByCooldown now (kindOf kind) fields d).1.options = d.options ∧
      (filterByCooldown now (kindOf kind) fields d).1.lastAlertAtBySignature =
        stamps (limits d.options) d.lastAlertAtBySignature
          (fields.map (fun field => (now,signature kind field))) ∧
      (filterByCooldown now (kindOf kind) fields d).2.map
          (fun field => (now,signature kind field)) =
        alerts (limits d.options) d.lastAlertAtBySignature
          (fields.map (fun field => (now,signature kind field))) := by
  induction fields generalizing d with
  | nil => exact ⟨rfl,rfl,rfl⟩
  | cons field fields ih =>
    simp only [filterByCooldown, List.map_cons, stamps, alerts]
    cases hpass : isPastCooldown now d (kindOf kind++":"++field) with
    | false =>
      have hpass' : passes (limits d.options) d.lastAlertAtBySignature now
          (signature kind field) = false := hpass
      rw [hpass']
      exact ih d
    | true =>
      have hpass' : passes (limits d.options) d.lastAlertAtBySignature now
          (signature kind field) = true := hpass
      obtain ⟨hoptions,hstamps⟩ := touchCooldown_stamps now d (signature kind field)
      obtain ⟨ho,hs,ha⟩ := ih (touchCooldown now d (signature kind field))
      rw [hoptions, hstamps] at hs ha
      rw [hpass']
      refine ⟨ho.trans hoptions,hs,?_⟩
      exact congrArg (List.cons (now,signature kind field)) ha

theorem touchAll_stamps (now : ℤ) (drifts : List TypeDrift) (d : Detector) :
    (drifts.foldl (fun d t => touchCooldown now d ("type:"++t.field)) d).options = d.options ∧
      (drifts.foldl (fun d t => touchCooldown now d ("type:"++t.field)) d).lastAlertAtBySignature =
        (drifts.map (fun t => signature .typeDrift t.field)).foldl
          (fun m k => touch (limits d.options) m now k) d.lastAlertAtBySignature := by
  induction drifts generalizing d with
  | nil => exact ⟨rfl,rfl⟩
  | cons t drifts ih =>
    obtain ⟨hoptions,hstamps⟩ := touchCooldown_stamps now d ("type:"++t.field)
    obtain ⟨ho,hs⟩ := ih (touchCooldown now d ("type:"++t.field))
    rw [hoptions, hstamps] at hs
    exact ⟨ho.trans hoptions,hs⟩

/-- That the drifts are filtered before the first is stamped makes no
difference, as they are drifts of different fields. -/
theorem reportTypeDrifts_eq (now : ℤ) (d : Detector) (drifts : List TypeDrift)
    (hn : (drifts.map TypeDrift.field).Nodup) :
    (reportTypeDrifts now d drifts).1.options = d.options ∧
      (reportTypeDrifts now d drifts).1.lastAlertAtBySignature =
        stamps (limits d.options) d.lastAlertAtBySignature
          (drifts.map (fun t => (now,signature .typeDrift t.field))) ∧
      (reportTypeDrifts now d drifts).2.map (fun t => (now,signature .typeDrift t.field)) =
        alerts (limits d.options) d.lastAlertAtBySignature
          (drifts.map (fun t => (now,signature .typeDrift t.field))) := by
  have hkeys : (drifts.map (fun t => signature .typeDrift t.field)).Nodup := by
    have h := hn.map (f := signature .typeDrift) (fun _ _ he => (signature_inj he).2)
    rw [List.map_map] at h
    exact h
  obtain ⟨hstamps,halerts⟩ := attempts_at_once (l := limits d.options)
    (m := d.lastAlertAtBySignature) now hkeys
  rw [List.map_map, List.filter_map] at hstamps halerts
  simp only [reportTypeDrifts]
  obtain ⟨ho,hs⟩ := touchAll_stamps now
    (drifts.filter (fun t => isPastCooldown now d ("type:"++t.field))) d
  refine ⟨ho,hs.trans hstamps.symm,?_⟩
  rw [List.map_map] at halerts
  exact halerts.symm

theorem report_eq (now : ℤ) (d : Detector) (f : Findings)
    (hn : (f.typeDrifts.map TypeDrift.field).Nodup) :
    (report now d f).1.options = d.options ∧
      (report now d f).1.lastAlertAtBySignature =
        stamps (limits d.options) d.lastAlertAtBySignature (attempts now f) ∧
      (report now d f).2.map (fun e => (now,eventSignature e)) =
        alerts (limits d.options) d.lastAlertAtBySignature (attempts now f) := by
  obtain ⟨ho,hs,ha⟩ := filterByCooldown_eq now .newField f.newFields d
  obtain ⟨ho',hs',ha'⟩ := filterByCooldown_eq now .missingField f.missingFields
    (filterByCooldown now "new" f.newFields d).1
  obtain ⟨ho'',hs'',ha''⟩ := reportTypeDrifts_eq now
    (filterByCooldown now "missing" f.missingFields
      (filterByCooldown now "new" f.newFields d).1).1 f.typeDrifts hn
  simp only [kindOf] at ho hs ha ho' hs' ha'
  rw [ho', ho, hs', ho, hs] at hs'' ha''
  rw [ho, hs] at hs' ha'
  simp only [report, attempts]
  refine ⟨ho''.trans (ho'.trans ho),?_,?_⟩
  · rw [hs'', stamps_append, stamps_append]
  · rw [List.map_append, List.map_append, List.map_map, List.map_map, List.map_map, alerts_append,
      alerts_append, stamps_append, ← ha, ← ha', ← ha'']
    rfl

/-- One call of the detector: which saves fail, the clock and the messages. -/
structure Observation where
  fails : Detector → Bool
  now : ℤ
  messages : List Json

def step (d : Detector) (o : Observation) : Detector := (observe o.fails o.now o.messages d).1

def observeAttempts (d : Detector) (o : Observation) : List (ℤ × String) :=
  if !d.options.enabled || o.messages.isEmpty then []
  else
    let ex := extractSchema d.options o.messages
    if ex.fields.size = 0 then []
    else
      match (countBatch d).baseline with
      | none => []
      | some _ =>
        if checkDue (countBatch d) then attempts o.now (check o.fails ex (countBatch d)).2 else []

/-- Whenever a finding is past its cooldown, its signature is tracked or the
map has room for it. -/
def FindsRoom (d : Detector) (o : Observation) : Prop :=
  Roomy (limits d.options) d.lastAlertAtBySignature (observeAttempts d o)

instance (d : Detector) (o : Observation) : Decidable (FindsRoom d o) :=
  inferInstanceAs (Decidable (Roomy _ _ _))

/-- The persisted events with the time of their check. -/
def log : Detector → List Observation → List (ℤ × DriftEvent)
  | _, [] => []
  | d, o::os => (observe o.fails o.now o.messages d).2.map (fun e => (o.now,e))++log (step d o) os

theorem observe_eq (d : Detector) (o : Observation) :
    (step d o).options = d.options ∧
      (step d o).lastAlertAtBySignature =
        stamps (limits d.options) d.lastAlertAtBySignature (observeAttempts d o) ∧
      (observe o.fails o.now o.messages d).2.map (fun e => (o.now,eventSignature e)) =
        alerts (limits d.options) d.lastAlertAtBySignature (observeAttempts d o) := by
  simp only [step, observe, observeAttempts]
  split
  · exact ⟨rfl,rfl,rfl⟩
  · split
    · exact ⟨rfl,rfl,rfl⟩
    · cases (countBatch d).baseline with
      | none =>
        obtain ⟨ho,hs⟩ := learnBaseline_keeps o.fails (extractSchema d.options o.messages)
          (countBatch d)
        exact ⟨ho,hs,rfl⟩
      | some baseline =>
        simp only
        split
        · obtain ⟨ho,hs⟩ := check_keeps o.fails (extractSchema d.options o.messages) (countBatch d)
          have h := report_eq o.now
            (check o.fails (extractSchema d.options o.messages) (countBatch d)).1
            (check o.fails (extractSchema d.options o.messages) (countBatch d)).2
            (check_drifts_nodup _ _ _)
          rw [detectDrift_eq]
          rw [ho, hs] at h
          exact h
        · exact ⟨rfl,rfl,rfl⟩

def runAttempts : Detector → List Observation → List (ℤ × String)
  | _, [] => []
  | d, o::os => observeAttempts d o++runAttempts (step d o) os

theorem log_signatures (os : List Observation) (d : Detector) :
    (log d os).map (fun e => (e.1,eventSignature e.2)) =
      alerts (limits d.options) d.lastAlertAtBySignature (runAttempts d os) := by
  induction os generalizing d with
  | nil => rfl
  | cons o os ih =>
    obtain ⟨ho,hs,ha⟩ := observe_eq d o
    rw [log, runAttempts, List.map_append, List.map_map, alerts_append, ih (step d o), ho, hs, ← ha]
    rfl

theorem roomy_of_meets (os : List Observation) (d : Detector) (h : Meets step FindsRoom os d) :
    Roomy (limits d.options) d.lastAlertAtBySignature (runAttempts d os) := by
  induction os generalizing d with
  | nil => exact trivial
  | cons o os ih =>
    obtain ⟨ho,hs,-⟩ := observe_eq d o
    have hrest := ih (step d o) h.2
    rw [ho, hs] at hrest
    exact (roomy_append _ _ _ _).mpr ⟨h.1,hrest⟩

theorem mem_observeAttempts {d : Detector} {o : Observation} {a : ℤ × String}
    (h : a ∈ observeAttempts d o) : a.1 = o.now := by
  simp only [observeAttempts] at h
  split at h
  · cases h
  · split at h
    · cases h
    · split at h
      · cases h
      · split at h
        · unfold attempts at h
          rcases List.mem_append.mp h with h | h
          · rcases List.mem_append.mp h with h | h
            · obtain ⟨_,-,rfl⟩ := List.mem_map.mp h
              rfl
            · obtain ⟨_,-,rfl⟩ := List.mem_map.mp h
              rfl
          · obtain ⟨_,-,rfl⟩ := List.mem_map.mp h
            rfl
        · cases h

theorem mem_runAttempts {os : List Observation} {d : Detector} {a : ℤ × String}
    (h : a ∈ runAttempts d os) : ∃ o ∈ os, a.1 = o.now := by
  induction os generalizing d with
  | nil => cases h
  | cons o os ih =>
    rcases List.mem_append.mp h with h | h
    · exact ⟨o,List.mem_cons_self,mem_observeAttempts h⟩
    · obtain ⟨o',ho',he⟩ := ih h
      exact ⟨o',List.mem_cons_of_mem o ho',he⟩

theorem runAttempts_ordered (os : List Observation) (d : Detector)
    (hclock : os.Pairwise (fun o o' => o.now ≤ o'.now)) :
    (runAttempts d os).Pairwise (fun a b => a.1 ≤ b.1) := by
  induction os generalizing d with
  | nil => exact List.Pairwise.nil
  | cons o os ih =>
    obtain ⟨ho,hos⟩ := List.pairwise_cons.mp hclock
    refine List.pairwise_append.mpr ⟨?_,ih _ hos,?_⟩
    · refine List.pairwise_of_forall_mem_list ?_
      intro a ha b hb
      rw [mem_observeAttempts ha, mem_observeAttempts hb]
    · intro a ha b hb
      obtain ⟨o',ho',he⟩ := mem_runAttempts hb
      rw [mem_observeAttempts ha, he]
      exact ho o' ho'

theorem start_options (o : DriftDetectorOptions) (saved : Option PersistedBaselineState) :
    (start o saved).options = o := by
  cases saved <;> rfl

/-- In a run in which every signature reported finds room for its stamp, two
events of one kind and field are a cooldown apart. -/
theorem events_keep_cooldown (o : DriftDetectorOptions) (saved : Option PersistedBaselineState)
    (os : List Observation) (hclock : os.Pairwise (fun a b => a.now ≤ b.now))
    (hroom : Meets step FindsRoom os (start o saved)) :
    (log (start o saved) os).Pairwise (fun x y => driftType x.2 = driftType y.2 →
      fieldName x.2 = fieldName y.2 → o.alertCooldownMs ≤ y.1-x.1) := by
  have hspaced := alerts_spaced (runAttempts_ordered os (start o saved) hclock)
    (roomy_of_meets os _ hroom)
  rw [← log_signatures, List.pairwise_map, start_options] at hspaced
  refine hspaced.imp ?_
  intro x y h hkind hfield
  apply h
  unfold eventSignature
  rw [hkind, hfield]

def oneTracked : DriftDetectorOptions := { maxTrackedFields := 1 }

def oneSaved : PersistedBaselineState where
  baselineFields := OrderedMap.empty.add "key:a"
  baselineTypeFreq := .empty
  missingStreakByField := .empty
  totalBatches := 20
  warmupSeen := 20
  tombstones := .empty
  newFieldCounts := .empty
  newFieldFirstSeen := .empty
  newFieldTypeFreq := .empty

def seen (now : ℤ) (key : String) : Observation := ⟨fun _ => false,now,[.obj [(key,.num 1)]]⟩

theorem events_keep_cooldown_one :
    (log (start oneTracked (some oneSaved)) [seen 2000000 "b",seen 2060000 "b"]).Pairwise
      (fun x y => driftType x.2 = driftType y.2 → fieldName x.2 = fieldName y.2 →
        oneTracked.alertCooldownMs ≤ y.1-x.1) :=
  events_keep_cooldown oneTracked (some oneSaved) [seen 2000000 "b",seen 2060000 "b"]
    (by simp [seen]) (by decide +kernel)

/-- The signature of the second new field finds the map full; the field is
reported again a minute later. -/
theorem second_field_reported_twice :
    ¬∀ (o : DriftDetectorOptions) (saved : Option PersistedBaselineState) (os : List Observation),
      os.Pairwise (fun a b => a.now ≤ b.now) →
      (log (start o saved) os).Pairwise (fun x y => driftType x.2 = driftType y.2 →
        fieldName x.2 = fieldName y.2 → o.alertCooldownMs ≤ y.1-x.1) := by
  intro hclaim
  have hlog : (log (start oneTracked (some oneSaved))
      [seen 2000000 "b",seen 2000000 "c",seen 2060000 "c"]).map
        (fun x => (x.1,driftType x.2,fieldName x.2)) =
      [(2000000,.newField,"key:b"),(2000000,.newField,"key:c"),(2060000,.newField,"key:c")] := by
    decide +kernel
  have hspaced := hclaim oneTracked (some oneSaved)
    [seen 2000000 "b",seen 2000000 "c",seen 2060000 "c"] (by simp [seen])
  have hmapped : ((log (start oneTracked (some oneSaved))
      [seen 2000000 "b",seen 2000000 "c",seen 2060000 "c"]).map
        (fun x => (x.1,driftType x.2,fieldName x.2))).Pairwise
      (fun x y => x.2.1 = y.2.1 → x.2.2 = y.2.2 → oneTracked.alertCooldownMs ≤ y.1-x.1) :=
    List.pairwise_map.mpr hspaced
  rw [hlog] at hmapped
  revert hmapped
  decide

end Iotistica.DriftCooldown
