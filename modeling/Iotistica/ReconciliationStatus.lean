import Iotistica.ContainerCells
import Iotistica.ContainerComparison

/-!
# The status view beside the planner

The view compares the texts of the ports, the environment and the volumes
and does not look at networks, restart policy and network mode. The planner
compares the lists in sorted form and the environment on the target's
variables. The two answers agree for a service if both see a difference in
it, or one sees one exactly when the other does.
-/

set_option autoImplicit false

namespace Iotistica.ReconciliationStatus
open Iotistica Iotistica.JsText Iotistica.ContainerState Iotistica.ContainerPlanner
  Iotistica.ContainerCells Iotistica.ContainerComparison

inductive SyncStatus where
  | inSync
  | needsUpdate
  | missing
  | extra
  deriving DecidableEq

structure ReconciliationServiceStatus where
  serviceName : String
  status : SyncStatus
  reason : Option String
  deriving DecidableEq

structure ReconciliationAppStatus where
  appName : String
  services : OrderedMap ℕ ReconciliationServiceStatus

def textChanged (current target : Option (List String)) : Bool :=
  current.getD [] != target.getD []

def envTextChanged (current target : Option (OrderedMap String String)) : Bool :=
  (current.getD OrderedMap.empty).entries != (target.getD OrderedMap.empty).entries

def reasons (current target : ContainerService) : List String :=
  (if imageChanged current target then ["Image changed"] else [])++
  (if textChanged current.config.ports target.config.ports then ["Ports changed"] else [])++
  (if envTextChanged current.config.environment target.config.environment then
    ["Environment changed"] else [])++
  (if textChanged current.config.volumes target.config.volumes then ["Volumes changed"] else [])++
  (if containerStopped current then ["Container stopped"] else [])

def extraStatus (service : ContainerService) : ReconciliationServiceStatus :=
  ⟨service.serviceName,.extra,some "Service exists but not in target state"⟩

def missingStatus (service : ContainerService) : ReconciliationServiceStatus :=
  ⟨service.serviceName,.missing,some "Service not yet deployed"⟩

def serviceStatus : Option ContainerService → Option ContainerService →
    Option ReconciliationServiceStatus
  | some currentSvc, none => some (extraStatus currentSvc)
  | none, some targetSvc => some (missingStatus targetSvc)
  | some currentSvc, some targetSvc =>
    if reasons currentSvc targetSvc = [] then some ⟨currentSvc.serviceName,.inSync,none⟩
    else some ⟨currentSvc.serviceName,.needsUpdate,
      some (", ".intercalate (reasons currentSvc targetSvc))⟩
  | none, none => none

def appStatus : Option DeviceApp → Option DeviceApp → Option ReconciliationAppStatus
  | none, none => none
  | some currentApp, none =>
    some ⟨currentApp.appName,OrderedMap.empty.assignAll
      (currentApp.services.map (fun svc => (svc.serviceId,extraStatus svc)))⟩
  | currentApp, some targetApp =>
    let currentServices := servicesOf currentApp
    let allServiceIds := (currentServices.map ContainerService.serviceId++
      targetApp.services.map ContainerService.serviceId).eraseDups
    some ⟨targetApp.appName,OrderedMap.empty.assignAll (allServiceIds.filterMap (fun id =>
      (serviceStatus (mapGet currentServices id) (mapGet targetApp.services id)).map
        (fun status => (id,status))))⟩

def getReconciliationStatus (current target : DeviceState) :
    OrderedMap ℕ ReconciliationAppStatus :=
  let allAppIds := (current.apps.keys++target.apps.keys).eraseDups
  OrderedMap.empty.assignAll (allAppIds.filterMap (fun appId =>
    (appStatus (current.apps.find? appId) (target.apps.find? appId)).map
      (fun status => (appId,status))))

def statusOf (current target : DeviceState) (a i : ℕ) : Option SyncStatus :=
  (((getReconciliationStatus current target).get? a).bind
    (fun app => app.services.get? i)).map ReconciliationServiceStatus.status

section
variable {κ β : Type} [DecidableEq κ]

theorem lookup_filterMap_keys (f : κ → Option β) (ks : List κ) (k : κ) :
    (ks.filterMap (fun k => (f k).map (fun v => (k,v)))).lookup k =
      if k ∈ ks then f k else none := by
  induction ks with
  | nil => rfl
  | cons a ks ih =>
    by_cases hk : k = a
    · subst hk
      cases hf : f k with
      | none =>
        rw [List.filterMap_cons_none (by rw [hf]; rfl), ih, hf]
        simp
      | some v =>
        rw [List.filterMap_cons_some (by rw [hf]; rfl), List.lookup_cons]
        simp
    · cases hf : f a with
      | none =>
        rw [List.filterMap_cons_none (by rw [hf]; rfl), ih]
        simp [hk]
      | some v =>
        rw [List.filterMap_cons_some (by rw [hf]; rfl), List.lookup_cons,
          beq_false_of_ne hk]
        simp only
        rw [ih]
        simp [hk]

theorem get?_assign_keys (f : κ → Option β) {ks : List κ} (hn : ks.Nodup) (k : κ) :
    (OrderedMap.empty.assignAll
      (ks.filterMap (fun k => (f k).map (fun v => (k,v))))).get? k =
      if k ∈ ks then f k else none := by
  have hnodup : ((ks.filterMap (fun k => (f k).map (fun v => (k,v)))).map Prod.fst).Nodup := by
    refine hn.sublist ?_
    clear hn
    induction ks with
    | nil => exact List.Sublist.slnil
    | cons a ks ih =>
      cases hf : f a with
      | none =>
        rw [List.filterMap_cons_none (by rw [hf]; rfl)]
        exact ih.cons a
      | some v =>
        rw [List.filterMap_cons_some (by rw [hf]; rfl), List.map_cons]
        exact ih.cons_cons a
  rw [OrderedMap.get?_assignAll _ _ hnodup, lookup_filterMap_keys]
  split
  · cases f k <;> rfl
  · rfl

end

theorem lookup_services (g : ContainerService → ReconciliationServiceStatus)
    (services : List ContainerService) (i : ℕ) :
    (services.map (fun svc => (svc.serviceId,g svc))).lookup i =
      (findService services i).map g := by
  induction services with
  | nil => rfl
  | cons svc services ih =>
    unfold findService at ih ⊢
    rw [List.map_cons, List.lookup_cons, List.find?_cons]
    by_cases hi : i = svc.serviceId
    · simp [hi]
    · rw [beq_false_of_ne hi, beq_false_of_ne (Ne.symm hi)]
      exact ih

theorem get?_appStatus {current target : Option DeviceApp}
    (hc : ((servicesOf current).map ContainerService.serviceId).Nodup)
    (ht : ((servicesOf target).map ContainerService.serviceId).Nodup) (i : ℕ) :
    (appStatus current target).bind (fun app => app.services.get? i) =
      serviceStatus (findService (servicesOf current) i) (findService (servicesOf target) i) := by
  cases target with
  | none =>
    cases current with
    | none => rfl
    | some currentApp =>
      have hkeys : ((currentApp.services.map
          (fun svc => (svc.serviceId,extraStatus svc))).map Prod.fst).Nodup := by
        rw [List.map_map]
        exact hc
      change (OrderedMap.empty.assignAll _).get? i = _
      rw [OrderedMap.get?_assignAll _ _ hkeys, lookup_services]
      change _ = serviceStatus (findService currentApp.services i) none
      cases findService currentApp.services i <;> rfl
  | some targetApp =>
    have hstatus : (appStatus current (some targetApp)).bind (fun app => app.services.get? i) =
        (OrderedMap.empty.assignAll (((servicesOf current).map ContainerService.serviceId++
          targetApp.services.map ContainerService.serviceId).eraseDups.filterMap (fun id =>
            (serviceStatus (mapGet (servicesOf current) id) (mapGet targetApp.services id)).map
              (fun status => (id,status))))).get? i := by
      cases current <;> rfl
    change (targetApp.services.map ContainerService.serviceId).Nodup at ht
    rw [hstatus, get?_assign_keys _ (CellRun.nodup_eraseDups _), mapGet_eq hc, mapGet_eq ht]
    split
    · rfl
    · rename_i hout
      rw [List.mem_eraseDups, List.mem_append, not_or] at hout
      rw [findService_none_iff.mpr hout.1]
      change none = serviceStatus none (findService targetApp.services i)
      rw [findService_none_iff.mpr hout.2]
      rfl

theorem findService_servicesOf (s : DeviceState) (a i : ℕ) :
    findService (servicesOf (s.apps.find? a)) i = view s a i := by
  cases hf : s.apps.find? a with
  | none =>
    rw [view_none hf]
    rfl
  | some app =>
    rw [view_eq hf]
    rfl

theorem nodup_servicesOf {s : DeviceState} (h : Distinct s) (a : ℕ) :
    ((servicesOf (s.apps.find? a)).map ContainerService.serviceId).Nodup := by
  cases hf : s.apps.find? a with
  | none => exact List.nodup_nil
  | some app => exact h a app hf

theorem statusOf_eq {current target : DeviceState} (hc : Distinct current) (ht : Distinct target)
    (a i : ℕ) : statusOf current target a i =
      (serviceStatus (view current a i) (view target a i)).map
        ReconciliationServiceStatus.status := by
  unfold statusOf getReconciliationStatus
  simp only
  rw [get?_assign_keys _ (CellRun.nodup_eraseDups _), ← findService_servicesOf current,
    ← findService_servicesOf target, ← get?_appStatus (nodup_servicesOf hc a) (nodup_servicesOf ht a)]
  congr 1
  split
  · rfl
  · rename_i hout
    rw [List.mem_eraseDups, List.mem_append, not_or] at hout
    rw [KeyedRecords.find?_none_iff.mpr hout.1, KeyedRecords.find?_none_iff.mpr hout.2]
    rfl

/-- A difference that both see. -/
def SharedDifference (current target : ContainerService) : Prop :=
  imageChanged current target = true ∨ containerStopped current = true ∨
    listChanged current.config.ports target.config.ports = true ∨
    listChanged current.config.volumes target.config.volumes = true ∨
    envChanged current.config.environment target.config.environment = true

/-- A difference that only the planner looks for. -/
def PlannerDifference (current target : ContainerService) : Prop :=
  listChanged current.config.networks target.config.networks = true ∨
    settingChanged "no" current.config.restart target.config.restart = true ∨
    settingChanged "bridge" current.config.networkMode target.config.networkMode = true

/-- A difference in the order of ports or volumes, or in variables that the
target does not have or has in another order. -/
def TextDifference (current target : ContainerService) : Prop :=
  textChanged current.config.ports target.config.ports = true ∨
    textChanged current.config.volumes target.config.volumes = true ∨
    envTextChanged current.config.environment target.config.environment = true

theorem listChanged_of_textUnchanged {current target : Option (List String)}
    (h : textChanged current target = false) : listChanged current target = false := by
  rw [listChanged_iff]
  rw [textChanged, bne_eq_false_iff_eq] at h
  rw [h]

theorem envChanged_of_textUnchanged {current target : Option (OrderedMap String String)}
    (h : envTextChanged current target = false) : envChanged current target = false := by
  rw [envTextChanged, bne_eq_false_iff_eq] at h
  rw [envChanged_iff]
  intro p hp
  rw [← h] at hp
  cases current with
  | none => cases hp
  | some env => exact OrderedMap.get?_of_mem hp

theorem eq_true_of_not_false {a b : Bool} (h : a = false → b = false) (hb : b = true) :
    a = true := by
  cases a with
  | false =>
    rw [h rfl] at hb
    cases hb
  | true => rfl

theorem needsUpdate_iff_differs (current target : ContainerService) :
    needsUpdate current target = true ↔
      SharedDifference current target ∨ PlannerDifference current target := by
  unfold needsUpdate configChanged SharedDifference PlannerDifference
  simp only [Bool.or_eq_true]
  tauto

theorem reasons_iff_differs (current target : ContainerService) :
    reasons current target ≠ [] ↔
      SharedDifference current target ∨ TextDifference current target := by
  have hparts : reasons current target ≠ [] ↔ imageChanged current target = true ∨
      TextDifference current target ∨ containerStopped current = true := by
    unfold reasons TextDifference
    simp only [ne_eq, List.append_eq_nil_iff, ite_eq_right_iff, List.cons_ne_nil, imp_false]
    tauto
  have hports := @listChanged_of_textUnchanged current.config.ports target.config.ports
  have hvolumes := @listChanged_of_textUnchanged current.config.volumes target.config.volumes
  have henv := @envChanged_of_textUnchanged current.config.environment target.config.environment
  rw [hparts]
  unfold SharedDifference
  constructor
  · rintro (himage | htext | hstopped)
    · exact Or.inl (Or.inl himage)
    · exact Or.inr htext
    · exact Or.inl (Or.inr (Or.inl hstopped))
  · rintro ((himage | hstopped | hp | hv | he) | htext)
    · exact Or.inl himage
    · exact Or.inr (Or.inr hstopped)
    · exact Or.inr (Or.inl (Or.inl (eq_true_of_not_false hports hp)))
    · exact Or.inr (Or.inl (Or.inr (Or.inl (eq_true_of_not_false hvolumes hv))))
    · exact Or.inr (Or.inl (Or.inr (Or.inr (eq_true_of_not_false henv he))))
    · exact Or.inr (Or.inl htext)

def StopsAndRemoves (plan : List Step) (a i : ℕ) : Prop :=
  ∃ id, plan.filter (own a i) = [.stopContainer a i id,.removeContainer a i id]

structure Comparable (current target : DeviceState) (a i : ℕ) : Prop where
  distinctCurrent : Distinct current
  distinctTarget : Distinct target
  containerPresent : ∀ c ∈ view current a i, (container c).isSome
  settled : ∀ c ∈ view current a i, ∀ t ∈ view target a i, desiredState c = desiredState t

structure Agrees (shouldRetry : String → Bool) (current target : DeviceState) (a i : ℕ) :
    Prop where
  inSync : (view current a i).isSome → (view target a i).isSome →
    (statusOf current target a i = some .inSync ↔
      LeavesAlone (calculateSteps shouldRetry current target) a i)
  extra : statusOf current target a i = some .extra ↔
    StopsAndRemoves (calculateSteps shouldRetry current target) a i

theorem serviceStatus_both (c t : ContainerService) :
    (serviceStatus (some c) (some t)).map ReconciliationServiceStatus.status =
      some (if reasons c t = [] then .inSync else .needsUpdate) := by
  by_cases h : reasons c t = [] <;> simp [serviceStatus, h]

/-- Only a service without a target is reported as one too many, and only
such a service is removed for good. -/
theorem extra_iff (shouldRetry : String → Bool) {current target : DeviceState} {a i : ℕ}
    (h : Comparable current target a i) : statusOf current target a i = some .extra ↔
      StopsAndRemoves (calculateSteps shouldRetry current target) a i := by
  unfold StopsAndRemoves
  rw [statusOf_eq h.distinctCurrent h.distinctTarget,
    filter_calculateSteps shouldRetry h.distinctCurrent h.distinctTarget]
  cases hc : view current a i with
  | none =>
    cases ht : view target a i with
    | none => simp [serviceStatus, serviceOps]
    | some t =>
      simp only [serviceStatus, serviceOps, missingStatus]
      split <;> simp
  | some c =>
    obtain ⟨id,hid⟩ := Option.isSome_iff_exists.mp (h.containerPresent c hc)
    cases ht : view target a i with
    | none => simp [serviceStatus, serviceOps, extraStatus, removeSteps, hid]
    | some t =>
      rw [serviceStatus_both]
      simp only [serviceOps, hid, h.settled c hc t ht, if_true]
      constructor
      · intro hextra
        split at hextra <;> cases hextra
      · rintro ⟨other,hplan⟩
        split at hplan <;> simp at hplan

theorem inSync_iff (shouldRetry : String → Bool) {current target : DeviceState} {a i : ℕ}
    (h : Comparable current target a i) {c t : ContainerService}
    (hc : view current a i = some c) (ht : view target a i = some t) :
    (statusOf current target a i = some .inSync ↔
      LeavesAlone (calculateSteps shouldRetry current target) a i) ↔
    (reasons c t ≠ [] ↔ needsUpdate c t = true) := by
  rw [leavesAlone_iff, filter_calculateSteps shouldRetry h.distinctCurrent h.distinctTarget,
    statusOf_eq h.distinctCurrent h.distinctTarget, hc, ht,
    serviceOps_quiet_iff _ a i (h.containerPresent c hc) (h.settled c hc t ht), serviceStatus_both]
  by_cases hreasons : reasons c t = []
  · simp [hreasons]
  · simp [hreasons]

/-- The view and the planner agree about a service exactly if they see a
difference together or, when they do not, each its own or neither. -/
theorem status_agrees_iff (shouldRetry : String → Bool) (current target : DeviceState) (a i : ℕ)
    (h : Comparable current target a i) :
    Agrees shouldRetry current target a i ↔
      ∀ c ∈ view current a i, ∀ t ∈ view target a i,
        SharedDifference c t ∨ (PlannerDifference c t ↔ TextDifference c t) := by
  have hservice : ∀ c ∈ view current a i, ∀ t ∈ view target a i,
      ((statusOf current target a i = some .inSync ↔
        LeavesAlone (calculateSteps shouldRetry current target) a i) ↔
      (SharedDifference c t ∨ (PlannerDifference c t ↔ TextDifference c t))) := by
    intro c hc t ht
    rw [inSync_iff shouldRetry h hc ht, reasons_iff_differs, needsUpdate_iff_differs]
    by_cases hshared : SharedDifference c t
    · simp [hshared]
    · simp [hshared, iff_comm]
  constructor
  · intro hagrees c hc t ht
    exact (hservice c hc t ht).mp
      (hagrees.inSync (Option.isSome_iff_exists.mpr ⟨c,hc⟩) (Option.isSome_iff_exists.mpr ⟨t,ht⟩))
  · intro hcond
    refine ⟨?_,extra_iff shouldRetry h⟩
    intro hc ht
    obtain ⟨c,hc⟩ := Option.isSome_iff_exists.mp hc
    obtain ⟨t,ht⟩ := Option.isSome_iff_exists.mp ht
    exact (hservice c hc t ht).mpr (hcond c hc t ht)

def webOn (networks : List String) : ContainerService :=
  ⟨2,"web","web:1",1,"shop",some .running,{ networks := some networks },some "c0de",
    some "running",none,none⟩

def shopOn (networks : List String) : DeviceState :=
  ⟨KeyedRecords.empty.put (⟨1,"shop",none,[webOn networks]⟩ : DeviceApp)⟩

theorem shopOn_distinct (networks : List String) : Distinct (shopOn networks) := by
  intro a app ha
  change (KeyedRecords.empty.put (⟨1,"shop",none,[webOn networks]⟩ : DeviceApp)).find? a =
    some app at ha
  rw [KeyedRecords.find?_put] at ha
  split at ha
  · obtain rfl := Option.some.inj ha
    exact List.nodup_singleton _
  · cases ha

theorem comparable_shop (current target : List String) :
    Comparable (shopOn current) (shopOn target) 1 2 where
  distinctCurrent := shopOn_distinct current
  distinctTarget := shopOn_distinct target
  containerPresent := by
    intro c hc
    obtain rfl := Option.some.inj hc
    rfl
  settled := by
    intro c hc t ht
    obtain rfl := Option.some.inj hc
    obtain rfl := Option.some.inj ht
    rfl

theorem same_shop_agrees : Agrees (fun _ => true) (shopOn ["front"]) (shopOn ["front"]) 1 2 :=
  (status_agrees_iff (fun _ => true) (shopOn ["front"]) (shopOn ["front"]) 1 2
    (comparable_shop ["front"] ["front"])).mpr (by
      intro c hc t ht
      obtain rfl := Option.some.inj hc
      obtain rfl := Option.some.inj ht
      have hplanner : ¬PlannerDifference (webOn ["front"]) (webOn ["front"]) := by
        unfold PlannerDifference
        decide
      have htext : ¬TextDifference (webOn ["front"]) (webOn ["front"]) := by
        unfold TextDifference
        decide
      exact Or.inr (iff_of_false hplanner htext))

/-- The service moves to another network; the view calls it in sync, the
planner replaces its container. -/
theorem moved_shop_in_sync :
    ¬∀ (shouldRetry : String → Bool) (current target : DeviceState) (a i : ℕ),
      Comparable current target a i → Agrees shouldRetry current target a i := by
  intro hclaim
  have hagrees := hclaim (fun _ => true) (shopOn ["front"]) (shopOn ["back"]) 1 2
    (comparable_shop ["front"] ["back"])
  have hstatus : statusOf (shopOn ["front"]) (shopOn ["back"]) 1 2 = some .inSync := by
    decide +kernel
  have hplan : Step.stopContainer 1 2 "c0de" ∈
      calculateSteps (fun _ => true) (shopOn ["front"]) (shopOn ["back"]) := by
    decide +kernel
  exact (hagrees.inSync rfl rfl).mp hstatus _ hplan rfl

end Iotistica.ReconciliationStatus
