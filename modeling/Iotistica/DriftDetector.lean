import Iotistica.DriftSchema

/-!
# The schema drift detector

A detector learns a baseline of fields from its first batches and then
reports fields that appear, disappear or change their type. Stable new
fields are promoted into the baseline, fields missing for long are retired
to tombstones. `saved` is the row of the baseline table, the only part that
survives a restart; a save may fail, which `fails` decides. Rename
detection and the log only read what is recorded here and are left out.
-/

set_option autoImplicit false

namespace Iotistica.DriftDetector
open Iotistica Iotistica.DriftSchema

structure TypeFrequency where
  counts : OrderedMap ValueType ℕ
  total : ℕ

structure PersistedBaselineState where
  baselineFields : KeySet
  baselineTypeFreq : OrderedMap String TypeFrequency
  missingStreakByField : OrderedMap String ℕ
  totalBatches : ℕ
  warmupSeen : ℕ
  tombstones : OrderedMap String ℕ
  newFieldCounts : OrderedMap String ℕ
  newFieldFirstSeen : OrderedMap String ℕ
  newFieldTypeFreq : OrderedMap String TypeFrequency

structure Detector where
  options : DriftDetectorOptions
  totalBatches : ℕ
  warmupSeen : ℕ
  baseline : Option KeySet
  baselineTypeFreq : OrderedMap String TypeFrequency
  warmupFieldCounts : OrderedMap String ℕ
  warmupTypeFreq : OrderedMap String TypeFrequency
  missingStreakByField : OrderedMap String ℕ
  newFieldCounts : OrderedMap String ℕ
  newFieldFirstSeen : OrderedMap String ℕ
  newFieldTypeFreq : OrderedMap String TypeFrequency
  lastAlertAtBySignature : OrderedMap String ℤ
  tombstones : OrderedMap String ℕ
  saved : Option PersistedBaselineState

def blank (o : DriftDetectorOptions) (saved : Option PersistedBaselineState) : Detector where
  options := o
  totalBatches := 0
  warmupSeen := 0
  baseline := none
  baselineTypeFreq := .empty
  warmupFieldCounts := .empty
  warmupTypeFreq := .empty
  missingStreakByField := .empty
  newFieldCounts := .empty
  newFieldFirstSeen := .empty
  newFieldTypeFreq := .empty
  lastAlertAtBySignature := .empty
  tombstones := .empty
  saved := saved

def restorePersistedBaseline (d : Detector) : Detector :=
  match d.saved with
  | none => d
  | some p =>
    { d with
      baseline := some p.baselineFields
      totalBatches := p.totalBatches
      warmupSeen := p.warmupSeen
      baselineTypeFreq := p.baselineTypeFreq
      missingStreakByField := p.missingStreakByField
      tombstones := p.tombstones
      newFieldCounts := p.newFieldCounts
      newFieldFirstSeen := p.newFieldFirstSeen
      newFieldTypeFreq := p.newFieldTypeFreq }

def start (o : DriftDetectorOptions) (saved : Option PersistedBaselineState) : Detector :=
  restorePersistedBaseline (blank o saved)

def snapshot (d : Detector) (baseline : KeySet) : PersistedBaselineState where
  baselineFields := baseline
  baselineTypeFreq := d.baselineTypeFreq
  missingStreakByField := d.missingStreakByField
  totalBatches := d.totalBatches
  warmupSeen := d.warmupSeen
  tombstones := d.tombstones
  newFieldCounts := d.newFieldCounts
  newFieldFirstSeen := d.newFieldFirstSeen
  newFieldTypeFreq := d.newFieldTypeFreq

def persistBaselineState (fails : Detector → Bool) (d : Detector) : Detector :=
  match d.baseline with
  | none => d
  | some baseline => if fails d then d else { d with saved := some (snapshot d baseline) }

def incrementCount (maxTrackedFields : ℕ) (m : OrderedMap String ℕ) (field : String) :
    OrderedMap String ℕ :=
  if !canTrackInMap maxTrackedFields m field then m else m.set field ((m.get? field).getD 0+1)

def countTypes (types : List ValueType) (freq : TypeFrequency) : TypeFrequency where
  counts := types.foldl (fun counts t => counts.set t ((counts.get? t).getD 0+1)) freq.counts
  total := freq.total+1

def recordTypeFrequency (maxTrackedFields : ℕ) (m : OrderedMap String TypeFrequency)
    (field : String) (types : List ValueType) : OrderedMap String TypeFrequency :=
  if !canTrackInMap maxTrackedFields m field then m
  else m.set field (countTypes types ((m.get? field).getD ⟨.empty,0⟩))

def ExtractedSchema.typesOf (ex : ExtractedSchema) (field : String) : List ValueType :=
  match ex.typesByField.get? field with
  | none => []
  | some types => types.keys

def warmField (ex : ExtractedSchema) (d : Detector) (field : String) : Detector :=
  { d with
    warmupFieldCounts := incrementCount d.options.maxTrackedFields d.warmupFieldCounts field
    warmupTypeFreq := recordTypeFrequency d.options.maxTrackedFields d.warmupTypeFreq field
      (ExtractedSchema.typesOf ex field) }

def selectBaseline (maxTrackedFields : ℕ) (requiredPresence : ℤ)
    (typeFreq : OrderedMap String TypeFrequency) :
    List (String × ℕ) → KeySet × OrderedMap String TypeFrequency →
      KeySet × OrderedMap String TypeFrequency
  | [], acc => acc
  | (field,count)::rest, acc =>
    if (count : ℤ) < requiredPresence then
      selectBaseline maxTrackedFields requiredPresence typeFreq rest acc
    else if maxTrackedFields ≤ acc.1.size then acc
    else
      let freqs := match typeFreq.get? field with
        | none => acc.2
        | some freq => acc.2.set field freq
      selectBaseline maxTrackedFields requiredPresence typeFreq rest (acc.1.add field,freqs)

def learnBaseline (fails : Detector → Bool) (ex : ExtractedSchema) (d : Detector) : Detector :=
  let seen := ex.fields.keys.foldl (warmField ex) { d with warmupSeen := d.warmupSeen+1 }
  if (seen.warmupSeen : ℤ) < seen.options.warmupBatches then seen
  else
    let requiredPresence :=
      max 1 ⌈(seen.options.warmupBatches : ℚ)*seen.options.minFieldPresenceRatio⌉
    let selected := selectBaseline seen.options.maxTrackedFields requiredPresence
      seen.warmupTypeFreq seen.warmupFieldCounts.entries (.empty,seen.baselineTypeFreq)
    persistBaselineState fails
      { seen with baseline := some selected.1, baselineTypeFreq := selected.2 }

structure TypeDrift where
  field : String
  dominantExpectedType : ValueType
  observedTypes : List ValueType

structure Findings where
  newFields : List String
  missingFields : List String
  typeDrifts : List TypeDrift

def shouldPromote (d : Detector) (baseline : KeySet) (field : String) : Bool :=
  let stableCount := (d.newFieldCounts.get? field).getD 0
  let firstSeen := (d.newFieldFirstSeen.get? field).getD d.totalBatches
  let windowSize : ℤ := d.totalBatches-firstSeen+1
  let presenceRatio : ℚ := if 0 < windowSize then stableCount/windowSize else 0
  decide (d.options.adaptivePromotionBatches ≤ stableCount) &&
    decide (d.options.adaptivePromotionRatio ≤ presenceRatio) &&
    decide (baseline.size < d.options.maxTrackedFields)

def trackNewField (ex : ExtractedSchema) (d : Detector) (field : String) : Detector :=
  { d with
    tombstones := d.tombstones.delete field
    newFieldFirstSeen := if d.newFieldFirstSeen.has field then d.newFieldFirstSeen
      else d.newFieldFirstSeen.set field d.totalBatches
    newFieldCounts := incrementCount d.options.maxTrackedFields d.newFieldCounts field
    newFieldTypeFreq := recordTypeFrequency d.options.maxTrackedFields d.newFieldTypeFreq field
      (ExtractedSchema.typesOf ex field) }

def promote (baseline : KeySet) (d : Detector) (field : String) : Detector :=
  let promoted :=
    { d with
      baseline := some (baseline.add field)
      missingStreakByField := d.missingStreakByField.set field 0
      newFieldCounts := d.newFieldCounts.delete field
      newFieldFirstSeen := d.newFieldFirstSeen.delete field }
  match d.newFieldTypeFreq.get? field with
  | none => promoted
  | some freq =>
    { promoted with
      baselineTypeFreq := d.baselineTypeFreq.set field freq
      newFieldTypeFreq := d.newFieldTypeFreq.delete field }

def handleNewField (fails : Detector → Bool) (ex : ExtractedSchema) (baseline : KeySet)
    (d : Detector) (field : String) : Detector :=
  let tracked := trackNewField ex d field
  if !shouldPromote tracked baseline field then tracked
  else persistBaselineState fails (promote baseline tracked field)

def getDominantExpectedTypes (o : DriftDetectorOptions) (freq : TypeFrequency) : List ValueType :=
  (freq.counts.entries.filter
    (fun e => decide (o.minTypeDominanceRatio ≤ (e.2 : ℚ)/freq.total))).map Prod.fst

def getDominantType (freq : TypeFrequency) : Option ValueType :=
  (freq.counts.entries.foldl
    (fun best e => match best with
      | none => some e
      | some b => if b.2 < e.2 then some e else some b) (none : Option (ValueType × ℕ))).map Prod.fst

/-- The expected types are those before this batch is counted, the dominant
type in the report is the one after it. -/
def checkTypeDrift (ex : ExtractedSchema) (d : Detector) (field : String) :
    Detector × Option TypeDrift :=
  let observed := ExtractedSchema.typesOf ex field
  if observed.isEmpty then (d,none)
  else
    let recorded := recordTypeFrequency d.options.maxTrackedFields d.baselineTypeFreq field observed
    let counted := { d with baselineTypeFreq := recorded }
    match d.baselineTypeFreq.get? field with
    | none => (counted,none)
    | some freq =>
      let expected := getDominantExpectedTypes d.options freq
      if expected.isEmpty || observed.all (fun t => expected.contains t) then (counted,none)
      else
        match getDominantType ((recorded.get? field).getD freq) with
        | none => (counted,none)
        | some .null => (counted,none)
        | some dominant => (counted,some ⟨field,dominant,observed⟩)

def observeField (fails : Detector → Bool) (ex : ExtractedSchema) (acc : Detector × Findings)
    (field : String) : Detector × Findings :=
  let d := acc.1
  match d.baseline with
  | none => acc
  | some baseline =>
    if !baseline.has field then
      (handleNewField fails ex baseline d field,
        { acc.2 with newFields := acc.2.newFields++[field] })
    else
      let checked := checkTypeDrift ex
        { d with missingStreakByField := d.missingStreakByField.set field 0 } field
      (checked.1,{ acc.2 with typeDrifts := acc.2.typeDrifts++checked.2.toList })

def retire (baseline : KeySet) (d : Detector) (expected : String) : Detector :=
  { d with
    baseline := some (baseline.delete expected)
    missingStreakByField := d.missingStreakByField.delete expected
    baselineTypeFreq := d.baselineTypeFreq.delete expected
    tombstones := if canTrackInMap d.options.maxTrackedFields d.tombstones expected
      then d.tombstones.set expected d.totalBatches else d.tombstones }

def handleMissingField (fails : Detector → Bool) (acc : Detector × Findings) (expected : String) :
    Detector × Findings :=
  let d := acc.1
  match d.baseline with
  | none => acc
  | some baseline =>
    let streak := (d.missingStreakByField.get? expected).getD 0+1
    let counted := { d with missingStreakByField := d.missingStreakByField.set expected streak }
    let findings := if d.options.consecutiveMissingThreshold ≤ streak
      then { acc.2 with missingFields := acc.2.missingFields++[expected] } else acc.2
    if d.options.adaptiveRetireBatches ≤ streak then
      (persistBaselineState fails (retire baseline counted expected),findings)
    else (counted,findings)

inductive DriftEvent where
  | newField (field : String)
  | missingField (field : String)
  | typeDrift (drift : TypeDrift)

def isPastCooldown (now : ℤ) (d : Detector) (signature : String) : Bool :=
  decide (d.options.alertCooldownMs ≤ now-(d.lastAlertAtBySignature.get? signature).getD 0)

def touchCooldown (now : ℤ) (d : Detector) (signature : String) : Detector :=
  if !canTrackInMap d.options.maxTrackedFields d.lastAlertAtBySignature signature then d
  else { d with lastAlertAtBySignature := d.lastAlertAtBySignature.set signature now }

def filterByCooldown (now : ℤ) (kind : String) : List String → Detector → Detector × List String
  | [], d => (d,[])
  | field::fields, d =>
    let sig := kind++":"++field
    if !isPastCooldown now d sig then filterByCooldown now kind fields d
    else
      let rest := filterByCooldown now kind fields (touchCooldown now d sig)
      (rest.1,field::rest.2)

def reportTypeDrifts (now : ℤ) (d : Detector) (drifts : List TypeDrift) :
    Detector × List TypeDrift :=
  let reportable := drifts.filter (fun t => isPastCooldown now d ("type:"++t.field))
  (reportable.foldl (fun d t => touchCooldown now d ("type:"++t.field)) d,reportable)

def report (now : ℤ) (d : Detector) (f : Findings) : Detector × List DriftEvent :=
  let new := filterByCooldown now "new" f.newFields d
  let missing := filterByCooldown now "missing" f.missingFields new.1
  let types := reportTypeDrifts now missing.1 f.typeDrifts
  (types.1,new.2.map .newField++missing.2.map .missingField++types.2.map .typeDrift)

def detectDrift (fails : Detector → Bool) (now : ℤ) (ex : ExtractedSchema) (d : Detector) :
    Detector × List DriftEvent :=
  let observed := ex.fields.keys.foldl (observeField fails ex) (d,⟨[],[],[]⟩)
  let expected := match observed.1.baseline with
    | none => []
    | some baseline => baseline.keys.filter (fun field => !ex.fields.has field)
  let checked := expected.foldl (handleMissingField fails) observed
  report now checked.1 checked.2

def checkDue (d : Detector) : Bool :=
  let interval := max 1 d.options.checkIntervalBatches
  !(decide (1 < interval) && decide ((d.totalBatches : ℤ)%interval ≠ 0))

def countBatch (d : Detector) : Detector := { d with totalBatches := d.totalBatches+1 }

def observe (fails : Detector → Bool) (now : ℤ) (messages : List Json) (d : Detector) :
    Detector × List DriftEvent :=
  if !d.options.enabled || messages.isEmpty then (d,[])
  else
    let ex := extractSchema d.options messages
    if ex.fields.size = 0 then (d,[])
    else
      match (countBatch d).baseline with
      | none => (learnBaseline fails ex (countBatch d),[])
      | some _ =>
        if checkDue (countBatch d) then detectDrift fails now ex (countBatch d)
        else (countBatch d,[])

end Iotistica.DriftDetector
