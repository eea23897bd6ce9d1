import Iotistica.StableText
import Iotistica.Spreads

/-!
# Merging the cloud's target

A poll builds the new target from the cloud's document and keeps what is
held locally where the cloud sends none: endpoints if its list is empty,
`anomalyDetection` if its one is falsy, and each feature flag that it does
not name. The order of members is that of their assignment; the runtime puts
names like the places of an array first, which the stable text does not show.
-/

set_option autoImplicit false

namespace Iotistica.TargetMerge
open Iotistica Iotistica.JsonText Iotistica.StableText Iotistica.JsSort

/-- The members that `...` takes from a value. Half of a surrogate pair is
no character here and is read as the replacement character. -/
def spread : Value → Members
  | .obj members => members
  | .arr items => items.zipIdx.map (fun p => (toString p.2,p.1))
  | .str s => (utf16 s).zipIdx.map (fun p => (toString p.2,.str (String.ofList (ofUnits [p.1]))))
  | _ => []

/-- `Array.isArray(v) ? v : []`. -/
def listed : Option Value → List Value
  | some (.arr items) => items
  | _ => []

def isTruthy (v : Option Value) : Bool := v.elim false truthy

/-- `v || {}`. -/
def orEmpty (v : Option Value) : Value :=
  match v with
  | some v => if truthy v then v else .obj []
  | none => .obj []

abbrev Config := OrderedMap String Value

/-- The member of the response under the device's uuid. A configuration that
is absent or falsy is the empty one. -/
structure DeviceState where
  apps : Option Value
  config : Config

structure AgentState where
  apps : Value
  config : Config

def AgentState.value (state : AgentState) : Value :=
  .obj [("apps",state.apps),("config",.obj state.config.entries)]

/-- `existingTargetState.config?.[key]`. -/
def heldMember (held : Value) (key : String) : Option Value :=
  (member held "config").bind (fun config => member config key)

def preserveEndpoints (existing : Option Value) (config : Config) : Config :=
  if listed (config.get? "endpoints") = [] ∧ listed existing ≠ [] then
    config.set "endpoints" (.arr (listed existing))
  else config

def preserveAnomalyDetection (existing : Option Value) (config : Config) : Config :=
  match existing with
  | some anomalyDetection =>
    if !isTruthy (config.get? "anomalyDetection") && truthy anomalyDetection then
      config.set "anomalyDetection" anomalyDetection
    else config
  | none => config

def mergeFeatures (existing : Option Value) (config : Config) : Config :=
  match existing with
  | some features =>
    if truthy features then
      config.set "features"
        (.obj (collect (spread features++spread (orEmpty (config.get? "features")))))
    else config
  | none => config

def newConfig (held : Value) (config : Config) : Config :=
  mergeFeatures (heldMember held "features")
    (preserveAnomalyDetection (heldMember held "anomalyDetection")
      (preserveEndpoints (heldMember held "endpoints") config))

def newTargetState (held : Value) (deviceState : DeviceState) : AgentState where
  apps := orEmpty deviceState.apps
  config := newConfig held deviceState.config

/-- What the state manager holds, and how often `setTarget` was called. -/
structure Target where
  held : Value
  calls : ℕ

def calculateHash (sha256 : String → String) (v : Value) : String := sha256 (stableStringify v)

/-- The state is stored as it is: its configuration is there. -/
def setTarget (target : Target) (state : AgentState) : Target :=
  ⟨state.value,target.calls+1⟩

def pollTargetState (sha256 : String → String) (deviceState : DeviceState) (target : Target)
    (isRunning : Bool) : Target :=
  let state := newTargetState target.held deviceState
  if calculateHash sha256 target.held ≠ calculateHash sha256 state.value then
    if isRunning then setTarget target state else target
  else target

def polls (sha256 : String → String) (deviceState : DeviceState) (target : Target)
    (running : List Bool) : Target :=
  running.foldl (pollTargetState sha256 deviceState) target

theorem preserveEndpoints_other (existing : Option Value) (config : Config) {key : String}
    (h : key ≠ "endpoints") : (preserveEndpoints existing config).get? key = config.get? key := by
  unfold preserveEndpoints
  split
  · rw [OrderedMap.get?_set, if_neg h]
  · rfl

theorem preserveAnomalyDetection_other (existing : Option Value) (config : Config) {key : String}
    (h : key ≠ "anomalyDetection") :
    (preserveAnomalyDetection existing config).get? key = config.get? key := by
  unfold preserveAnomalyDetection
  split
  · split
    · rw [OrderedMap.get?_set, if_neg h]
    · rfl
  · rfl

theorem mergeFeatures_other (existing : Option Value) (config : Config) {key : String}
    (h : key ≠ "features") : (mergeFeatures existing config).get? key = config.get? key := by
  unfold mergeFeatures
  split
  · split
    · rw [OrderedMap.get?_set, if_neg h]
    · rfl
  · rfl

theorem preserveEndpoints_get (existing : Option Value) (config : Config) :
    (preserveEndpoints existing config).get? "endpoints" =
      if listed (config.get? "endpoints") = [] ∧ listed existing ≠ [] then
        some (.arr (listed existing))
      else config.get? "endpoints" := by
  unfold preserveEndpoints
  split
  · rw [OrderedMap.get?_set, if_pos rfl]
  · rfl

theorem preserveAnomalyDetection_get (existing : Option Value) (config : Config) :
    (preserveAnomalyDetection existing config).get? "anomalyDetection" =
      if isTruthy (config.get? "anomalyDetection") = false ∧ isTruthy existing = true then existing
      else config.get? "anomalyDetection" := by
  unfold preserveAnomalyDetection
  cases existing with
  | none => simp [isTruthy]
  | some a =>
    have hguard : (!isTruthy (config.get? "anomalyDetection") && truthy a) = true ↔
        isTruthy (config.get? "anomalyDetection") = false ∧ isTruthy (some a) = true := by
      simp [isTruthy]
    simp only
    by_cases h : isTruthy (config.get? "anomalyDetection") = false ∧ isTruthy (some a) = true
    · rw [if_pos h, if_pos (hguard.mpr h), OrderedMap.get?_set, if_pos rfl]
    · rw [if_neg h, if_neg (fun hg => h (hguard.mp hg))]

theorem mergeFeatures_get (existing : Option Value) (config : Config) :
    (mergeFeatures existing config).get? "features" =
      if isTruthy existing = true then
        some (.obj (collect (spread (orEmpty existing)++
          spread (orEmpty (config.get? "features")))))
      else config.get? "features" := by
  unfold mergeFeatures
  cases existing with
  | none => simp [isTruthy]
  | some f =>
    simp only [isTruthy, Option.elim_some, orEmpty]
    by_cases hf : truthy f = true
    · simp only [hf, if_true]
      rw [OrderedMap.get?_set, if_pos rfl]
    · simp only [hf, if_false, Bool.false_eq_true]

theorem newConfig_get_endpoints (held : Value) (config : Config) :
    (newConfig held config).get? "endpoints" =
      (preserveEndpoints (heldMember held "endpoints") config).get? "endpoints" := by
  unfold newConfig
  rw [mergeFeatures_other _ _ (by decide), preserveAnomalyDetection_other _ _ (by decide)]

theorem newConfig_get_anomalyDetection (held : Value) (config : Config) :
    (newConfig held config).get? "anomalyDetection" =
      (preserveAnomalyDetection (heldMember held "anomalyDetection")
        (preserveEndpoints (heldMember held "endpoints") config)).get? "anomalyDetection" := by
  unfold newConfig
  rw [mergeFeatures_other _ _ (by decide)]

theorem preserveEndpoints_again (existing : Option Value) (config : Config) :
    preserveEndpoints ((preserveEndpoints existing config).get? "endpoints") config =
      preserveEndpoints existing config := by
  rw [preserveEndpoints_get]
  split
  · have hlisted : listed (some (.arr (listed existing))) = listed existing := rfl
    unfold preserveEndpoints
    rw [hlisted]
  · next h =>
    unfold preserveEndpoints
    rw [if_neg h, if_neg (fun hboth => hboth.2 hboth.1)]

theorem preserveAnomalyDetection_again (existing : Option Value) (config : Config) :
    preserveAnomalyDetection
        ((preserveAnomalyDetection existing config).get? "anomalyDetection") config =
      preserveAnomalyDetection existing config := by
  rw [preserveAnomalyDetection_get]
  split
  · rfl
  · next h =>
    have hkept : preserveAnomalyDetection existing config = config := by
      unfold preserveAnomalyDetection
      cases existing with
      | none => rfl
      | some a =>
        simp only [isTruthy, Option.elim_some] at h
        simp only [Bool.and_eq_true, Bool.not_eq_true']
        exact if_neg h
    rw [hkept]
    unfold preserveAnomalyDetection
    cases hc : config.get? "anomalyDetection" with
    | none => rfl
    | some a => simp [isTruthy]

/-- What the cloud sends as features is falsy or a record of flags. -/
def FeaturesRecord (config : Config) : Prop :=
  ∀ features, config.get? "features" = some features → truthy features = true →
    ∃ flags : OrderedMap String Value, features = .obj flags.entries

theorem collect_append_self (flags : OrderedMap String Value) :
    collect (flags.entries++flags.entries) = flags.entries := by
  unfold collect
  rw [OrderedMap.assignAll_append, OrderedMap.assignAll_twice, OrderedMap.assignAll_entries]

theorem collect_again (ms ns : Members) : collect (collect (ms++ns)++ns) = collect (ms++ns) := by
  unfold collect
  rw [OrderedMap.assignAll_append OrderedMap.empty (_ : Members) ns, OrderedMap.assignAll_entries,
    OrderedMap.assignAll_append, OrderedMap.assignAll_twice]

theorem mergeFeatures_again (existing : Option Value) (config : Config)
    (h : FeaturesRecord config ∨ isTruthy existing = true) :
    mergeFeatures ((mergeFeatures existing config).get? "features") config =
      mergeFeatures existing config := by
  rw [mergeFeatures_get]
  by_cases hex : isTruthy existing = true
  · obtain ⟨f,rfl⟩ : ∃ f, existing = some f := by
      cases existing with
      | none => cases hex
      | some f => exact ⟨f,rfl⟩
    have hf : truthy f = true := hex
    rw [if_pos hex]
    unfold mergeFeatures
    simp only [hf, if_true, orEmpty]
    show config.set "features" (.obj (collect (collect _++_))) = _
    rw [collect_again]
  · rw [if_neg hex]
    have hkept : mergeFeatures existing config = config := by
      unfold mergeFeatures
      cases existing with
      | none => rfl
      | some f => exact if_neg hex
    rw [hkept]
    unfold mergeFeatures
    cases hc : config.get? "features" with
    | none => rfl
    | some f =>
      by_cases hf : truthy f = true
      · obtain ⟨flags,rfl⟩ := (h.resolve_right hex) f hc hf
        simp only [hf, if_true, orEmpty]
        show config.set "features" (.obj (collect (flags.entries++flags.entries))) = config
        rw [collect_append_self]
        exact OrderedMap.set_same hc
      · simp only [hf, Bool.false_eq_true, if_false]

theorem heldMember_value (state : AgentState) (key : String) :
    heldMember state.value key = state.config.get? key := rfl

theorem featuresRecord_congr {c c' : Config} (h : c'.get? "features" = c.get? "features")
    (hc : FeaturesRecord c) : FeaturesRecord c' := by
  intro f hf
  rw [h] at hf
  exact hc f hf

theorem newTargetState_again (held : Value) (deviceState : DeviceState)
    (h : FeaturesRecord deviceState.config ∨ isTruthy (heldMember held "features") = true) :
    newTargetState (newTargetState held deviceState).value deviceState =
      newTargetState held deviceState := by
  have hconfig : newConfig (newTargetState held deviceState).value deviceState.config =
      newConfig held deviceState.config := by
    show mergeFeatures (heldMember _ _) (preserveAnomalyDetection (heldMember _ _)
      (preserveEndpoints (heldMember _ _) deviceState.config)) = _
    rw [heldMember_value, heldMember_value, heldMember_value]
    show mergeFeatures ((newConfig held deviceState.config).get? _)
      (preserveAnomalyDetection ((newConfig held deviceState.config).get? _)
        (preserveEndpoints ((newConfig held deviceState.config).get? _) deviceState.config)) = _
    rw [newConfig_get_endpoints, preserveEndpoints_again, newConfig_get_anomalyDetection,
      preserveAnomalyDetection_again]
    apply mergeFeatures_again
    refine h.imp_left (featuresRecord_congr ?_)
    rw [preserveAnomalyDetection_other _ _ (by decide), preserveEndpoints_other _ _ (by decide)]
  unfold newTargetState at hconfig ⊢
  simp only [hconfig]

def Settled (held : Value) (deviceState : DeviceState) (target : Target) : Prop :=
  (target.held = held ∧ target.calls = 0) ∨
    (target.held = (newTargetState held deviceState).value ∧ target.calls = 1)

theorem pollTargetState_settled (sha256 : String → String) {held : Value}
    {deviceState : DeviceState} {target : Target} (isRunning : Bool)
    (h : FeaturesRecord deviceState.config ∨ isTruthy (heldMember held "features") = true)
    (hs : Settled held deviceState target) :
    Settled held deviceState (pollTargetState sha256 deviceState target isRunning) := by
  unfold pollTargetState
  rcases hs with ⟨hheld,hcalls⟩ | ⟨hheld,hcalls⟩
  · simp only [hheld]
    split
    · split
      · exact Or.inr ⟨rfl,congrArg Nat.succ hcalls⟩
      · exact Or.inl ⟨hheld,hcalls⟩
    · exact Or.inl ⟨hheld,hcalls⟩
  · simp only [hheld, newTargetState_again held deviceState h, ne_eq, not_true_eq_false, if_false]
    exact Or.inr ⟨hheld,hcalls⟩

theorem polls_settled (sha256 : String → String) {held : Value} {deviceState : DeviceState}
    (running : List Bool)
    (h : FeaturesRecord deviceState.config ∨ isTruthy (heldMember held "features") = true)
    {target : Target} (hs : Settled held deviceState target) :
    Settled held deviceState (polls sha256 deviceState target running) := by
  induction running generalizing target with
  | nil => exact hs
  | cons isRunning running ih => exact ih (pollTargetState_settled sha256 isRunning h hs)

/-- `{ ...(features || {}) }`. -/
def flags (features : Option Value) : OrderedMap String Value :=
  OrderedMap.empty.assignAll (spread (orEmpty features))

/-- The cloud's part of a merged state, and what of the local one is kept. -/
structure CloudWins (held : Value) (deviceState : DeviceState) (state : AgentState) : Prop where
  apps : state.apps = orEmpty deviceState.apps
  others : ∀ key, key ≠ "endpoints" → key ≠ "anomalyDetection" → key ≠ "features" →
    state.config.get? key = deviceState.config.get? key
  endpoints : state.config.get? "endpoints" =
    if listed (deviceState.config.get? "endpoints") = [] ∧
        listed (heldMember held "endpoints") ≠ [] then
      some (.arr (listed (heldMember held "endpoints")))
    else deviceState.config.get? "endpoints"
  anomalyDetection : state.config.get? "anomalyDetection" =
    if isTruthy (deviceState.config.get? "anomalyDetection") = false ∧
        isTruthy (heldMember held "anomalyDetection") = true then
      heldMember held "anomalyDetection"
    else deviceState.config.get? "anomalyDetection"
  features : ∀ flag, (flags (state.config.get? "features")).get? flag =
    ((flags (deviceState.config.get? "features")).get? flag).or
      ((flags (heldMember held "features")).get? flag)

theorem orEmpty_of_falsy {v : Option Value} (h : ¬isTruthy v = true) : orEmpty v = .obj [] := by
  cases v with
  | none => rfl
  | some v => exact if_neg h

theorem flags_merged (existing cloud : Option Value) (flag : String) :
    (flags (some (.obj (collect (spread (orEmpty existing)++spread (orEmpty cloud)))))).get? flag =
      ((flags cloud).get? flag).or ((flags existing).get? flag) := by
  have hflags : flags (some (.obj (collect (spread (orEmpty existing)++spread (orEmpty cloud))))) =
      (flags existing).assignAll (spread (orEmpty cloud)) := by
    show OrderedMap.empty.assignAll (collect _) = _
    unfold collect
    rw [OrderedMap.assignAll_entries, OrderedMap.assignAll_append]
    rfl
  have hcloud : (flags cloud).get? flag = ((spread (orEmpty cloud)).reverse.lookup flag) := by
    unfold flags
    rw [OrderedMap.get?_assignAll_last]
    exact Option.or_none
  rw [hflags, OrderedMap.get?_assignAll_last, hcloud]

theorem newTargetState_cloudWins (held : Value) (deviceState : DeviceState) :
    CloudWins held deviceState (newTargetState held deviceState) where
  apps := rfl
  others key he ha hf := by
    show (newConfig held deviceState.config).get? key = _
    unfold newConfig
    rw [mergeFeatures_other _ _ hf, preserveAnomalyDetection_other _ _ ha,
      preserveEndpoints_other _ _ he]
  endpoints := by
    show (newConfig held deviceState.config).get? "endpoints" = _
    rw [newConfig_get_endpoints, preserveEndpoints_get]
  anomalyDetection := by
    show (newConfig held deviceState.config).get? "anomalyDetection" = _
    rw [newConfig_get_anomalyDetection, preserveAnomalyDetection_get,
      preserveEndpoints_other _ _ (by decide)]
  features flag := by
    show (flags ((newConfig held deviceState.config).get? "features")).get? flag = _
    unfold newConfig
    rw [mergeFeatures_get, preserveAnomalyDetection_other _ _ (by decide),
      preserveEndpoints_other _ _ (by decide)]
    split
    · exact flags_merged _ _ flag
    · next hfalsy =>
      have hnone : (flags (heldMember held "features")).get? flag = none := by
        unfold flags
        rw [orEmpty_of_falsy hfalsy]
        rfl
      rw [hnone, Option.or_none]

/-- The merged state has all that the cloud sent and local members only in
its gaps. Unless the cloud's features are truthy but no record and none are
held, the same response changes nothing any more. -/
theorem merge_settles (sha256 : String → String) (held : Value) (deviceState : DeviceState) :
    CloudWins held deviceState (newTargetState held deviceState) ∧
    (FeaturesRecord deviceState.config ∨ isTruthy (heldMember held "features") = true →
      stableStringify (newTargetState (newTargetState held deviceState).value deviceState).value =
        stableStringify (newTargetState held deviceState).value ∧
      ∀ running, (polls sha256 deviceState ⟨held,0⟩ running).calls ≤ 1) := by
  refine ⟨newTargetState_cloudWins held deviceState,fun h => ⟨?_,fun running => ?_⟩⟩
  · rw [newTargetState_again held deviceState h]
  · have hs : Settled held deviceState ⟨held,0⟩ := Or.inl ⟨rfl,rfl⟩
    rcases polls_settled sha256 running h hs with ⟨-,hcalls⟩ | ⟨-,hcalls⟩
    · rw [hcalls]
      exact Nat.zero_le _
    · exact hcalls.le

def noTarget : Value := .obj [("apps",.obj []),("config",.obj [])]

def oneFlag : DeviceState where
  apps := none
  config := ⟨[("features",.obj [("enableAnomalyDetection",.bool true)])],by simp⟩

theorem one_flag_settles : (polls id oneFlag ⟨noTarget,0⟩ [true,true,true]).calls ≤ 1 := by
  have hrecord : FeaturesRecord oneFlag.config := by
    intro f hf _
    obtain rfl := Option.some.inj hf
    exact ⟨⟨[("enableAnomalyDetection",.bool true)],by simp⟩,rfl⟩
  exact ((merge_settles id noTarget oneFlag).2 (Or.inl hrecord)).2 _

def bareFeatures : DeviceState where
  apps := none
  config := ⟨[("features",.bool true)],by simp⟩

theorem bare_features_set_twice :
    ¬ ∀ (sha256 : String → String) (held : Value) (deviceState : DeviceState)
      (running : List Bool), (polls sha256 deviceState ⟨held,0⟩ running).calls ≤ 1 := by
  intro h
  exact absurd (h id noTarget bareFeatures [true,true]) (by decide)

end Iotistica.TargetMerge
