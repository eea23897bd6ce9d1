import Iotistica.ContainerPlanner

/-!
# A plan, service by service

Apps are planned one after the other and services within an app, so the
steps of one service stand in a plan as they were pushed for it.
-/

set_option autoImplicit false

namespace Iotistica.ContainerCells
open Iotistica Iotistica.CellRun Iotistica.ContainerState Iotistica.ContainerPlanner

def serviceOps (shouldRetry : String → Bool) (a i : ℕ) :
    Option ContainerService → Option ContainerService → List Step
  | none, none => []
  | some currentSvc, none => removeSteps a i currentSvc
  | none, some targetSvc =>
    if shouldRetry (imageKey targetSvc.imageName) ∧ desiredState targetSvc = .running then
      [.startContainer a targetSvc]
    else []
  | some currentSvc, some targetSvc =>
    match container currentSvc with
    | none => []
    | some id =>
      if desiredState currentSvc = desiredState targetSvc then
        if needsUpdate currentSvc targetSvc then
          [.stopContainer a i id,.removeContainer a i id,.startContainer a targetSvc]
        else []
      else transitionSteps a i id (desiredState currentSvc) (desiredState targetSvc)

abbrev own (a i : ℕ) : Step → Bool := ofCell Step.subject (a,i)

def Within (a i : ℕ) (steps : List Step) : Prop :=
  ∀ st ∈ steps, st.subject = none ∨ st.subject = some (a,i)

theorem filter_own_of_within {a i : ℕ} {steps : List Step} (h : Within a i steps) {b j : ℕ}
    (hne : (b,j) ≠ (a,i)) : steps.filter (own b j) = [] := by
  rw [List.filter_eq_nil_iff]
  intro st hst
  rcases h st hst with hs | hs
  · simp [own, ofCell, hs]
  · simp only [own, ofCell, hs, beq_iff_eq, Option.some.injEq]
    exact fun he => hne he.symm

theorem removeSteps_within (a i : ℕ) (service : ContainerService) :
    Within a i (removeSteps a i service) := by
  intro st hst
  unfold removeSteps at hst
  cases hc : container service with
  | none => simp [hc] at hst
  | some id =>
    simp only [hc, List.mem_cons, List.not_mem_nil, or_false] at hst
    rcases hst with rfl | rfl
    · exact Or.inr rfl
    · exact Or.inr rfl

theorem addSteps_within (a : ℕ) (service : ContainerService) :
    Within a service.serviceId (addSteps a service) := by
  intro st hst
  unfold addSteps at hst
  split at hst
  · simp only [List.mem_cons, List.not_mem_nil, or_false] at hst
    rcases hst with rfl | rfl
    · exact Or.inl rfl
    · exact Or.inr rfl
  · cases hst

theorem transitionSteps_subject (a i : ℕ) (id : String) (x y : Lifecycle) :
    ∀ st ∈ transitionSteps a i id x y, st.subject = some (a,i) := by
  cases x <;> cases y <;> simp [transitionSteps, Step.subject]

theorem updateSteps_within (a i : ℕ) (id : String) (current target : ContainerService)
    (hid : target.serviceId = i) : Within a i (updateSteps a a i id current target) := by
  intro st hst
  unfold updateSteps at hst
  split at hst
  · rcases List.mem_append.mp hst with h | h
    · split at h
      · rw [List.mem_singleton] at h
        rw [h]
        exact Or.inl rfl
      · cases h
    · simp only [List.mem_cons, List.not_mem_nil, or_false] at h
      rcases h with rfl | rfl | rfl
      · exact Or.inr rfl
      · exact Or.inr rfl
      · exact Or.inr (by simp [Step.subject, hid])
  · cases hst

theorem serviceSteps_within (shouldRetry : String → Bool) (a i : ℕ)
    (current target : Option ContainerService) (hid : ∀ t ∈ target, t.serviceId = i) :
    Within a i (serviceSteps shouldRetry a a i current target) := by
  cases current with
  | none =>
    cases target with
    | none => exact fun st hst => by cases hst
    | some t =>
      intro st hst
      simp only [serviceSteps] at hst
      split at hst
      · have h := addSteps_within a t st hst
        rw [hid t rfl] at h
        exact h
      · cases hst
  | some c =>
    cases target with
    | none => exact removeSteps_within a i c
    | some t =>
      intro st hst
      simp only [serviceSteps] at hst
      split at hst
      · cases hst
      · split at hst
        · exact updateSteps_within a i _ c t (hid t rfl) st hst
        · exact Or.inr (transitionSteps_subject a i _ _ _ st hst)

theorem reconcileNames_idle (f : ContainerService → List String) (create remove : String → Step)
    (hc : ∀ n, (create n).subject = none) (hr : ∀ n, (remove n).subject = none)
    (current target : Option DeviceApp) :
    ∀ st ∈ reconcileNamesForApp f create remove current target, st.subject = none := by
  intro st hst
  unfold reconcileNamesForApp at hst
  rcases List.mem_append.mp hst with h | h
  · obtain ⟨n,_,rfl⟩ := List.mem_map.mp h
    exact hc n
  · obtain ⟨n,_,rfl⟩ := List.mem_map.mp h
    exact hr n

theorem filter_own_of_idle {steps : List Step} (h : ∀ st ∈ steps, st.subject = none)
    (p : Step → Bool) (a i : ℕ) : (steps.filter p).filter (own a i) = [] := by
  rw [List.filter_eq_nil_iff]
  intro st hst
  simp [own, ofCell, h st (List.mem_of_mem_filter hst)]

theorem filter_removeSteps (a i : ℕ) (service : ContainerService) :
    (removeSteps a i service).filter (own a i) = removeSteps a i service := by
  unfold removeSteps
  cases container service with
  | none => rfl
  | some id => simp [own, ofCell, Step.subject]

theorem filter_addSteps (a : ℕ) (service : ContainerService) :
    (addSteps a service).filter (own a service.serviceId) =
      if desiredState service = .running then [.startContainer a service] else [] := by
  unfold addSteps
  split
  · simp [own, ofCell, Step.subject]
  · rfl

theorem filter_serviceSteps (shouldRetry : String → Bool) (a i : ℕ)
    (current target : Option ContainerService) (hid : ∀ t ∈ target, t.serviceId = i) :
    (serviceSteps shouldRetry a a i current target).filter (own a i) =
      serviceOps shouldRetry a i current target := by
  cases current with
  | none =>
    cases target with
    | none => rfl
    | some t =>
      have ht := hid t rfl
      subst ht
      simp only [serviceSteps, serviceOps]
      by_cases hr : shouldRetry (imageKey t.imageName)
      · simp only [hr, if_true, true_and]
        exact filter_addSteps a t
      · simp [hr]
  | some c =>
    cases target with
    | none => exact filter_removeSteps a i c
    | some t =>
      have ht := hid t rfl
      simp only [serviceSteps, serviceOps]
      cases container c with
      | none => rfl
      | some id =>
        simp only
        split
        · unfold updateSteps
          split
          · cases imageChanged c t <;> simp [own, ofCell, Step.subject, ht]
          · rfl
        · rw [List.filter_eq_self]
          intro st hst
          simp [own, ofCell, transitionSteps_subject a i id _ _ st hst]

theorem mapGet_none_iff {services : List ContainerService} {i : ℕ} :
    mapGet services i = none ↔ i ∉ services.map ContainerService.serviceId := by
  unfold mapGet
  rw [findService_none_iff]
  simp

theorem mapGet_eq {services : List ContainerService}
    (hn : (services.map ContainerService.serviceId).Nodup) (i : ℕ) :
    mapGet services i = findService services i := by
  have hn' : (services.reverse.map ContainerService.serviceId).Nodup := by
    rw [List.map_reverse]
    exact List.nodup_reverse.mpr hn
  unfold mapGet
  cases hf : findService services i with
  | none =>
    exact mapGet_none_iff.mpr (findService_none_iff.mp hf)
  | some svc =>
    have hid := findService_id hf
    have hmem := List.mem_reverse.mpr (findService_mem hf)
    have h := findService_of_mem hn' hmem
    rw [hid] at h
    exact h

theorem find?_ids (ids : List ℕ) (i : ℕ) :
    ids.find? (fun x => x == i) = if i ∈ ids then some i else none := by
  by_cases h : i ∈ ids
  · rw [if_pos h]
    cases hf : ids.find? (fun x => x == i) with
    | none =>
      have hnone := List.find?_eq_none.mp hf i h
      simp at hnone
    | some x =>
      have hx := List.find?_some hf
      simp only [beq_iff_eq] at hx
      rw [hx]
  · rw [if_neg h]
    apply List.find?_eq_none.mpr
    intro x hx he
    simp only [beq_iff_eq] at he
    exact h (he ▸ hx)

/-- The services of the two apps are paired by `Map.get`, so the last entry
of an id counts on both sides. -/
theorem filter_update_mapGet (shouldRetry : String → Bool) {a : ℕ}
    {current target : DeviceApp} (hc : current.appId = a) (ht : target.appId = a) (i : ℕ) :
    (planStepsToUpdateApp shouldRetry current target).filter (own a i) =
      serviceOps shouldRetry a i (mapGet current.services i) (mapGet target.services i) := by
  unfold planStepsToUpdateApp
  simp only [hc, ht]
  have hids : ∀ j, ∀ t ∈ mapGet target.services j, t.serviceId = j := by
    intro j t h
    exact findService_id h
  rw [filter_flatMap_of_key (fun j : ℕ => j) _ _ i]
  · rw [find?_ids]
    by_cases hi : i ∈ (current.services.map ContainerService.serviceId++
        target.services.map ContainerService.serviceId).eraseDups
    · simp only [hi, if_true, Option.map_some, Option.getD_some]
      rw [filter_serviceSteps _ _ _ _ _ (hids i)]
    · simp only [hi, if_false, Option.map_none, Option.getD_none]
      rw [List.mem_eraseDups, List.mem_append, not_or] at hi
      rw [mapGet_none_iff.mpr hi.1, mapGet_none_iff.mpr hi.2]
      rfl
  · intro j hj
    apply filter_own_of_within (serviceSteps_within _ _ _ _ _ (hids j))
    intro he
    exact hj (Prod.mk.inj he).2.symm
  · simpa using nodup_eraseDups _

theorem filter_planStepsToUpdateApp (shouldRetry : String → Bool) {a : ℕ}
    {current target : DeviceApp} (hc : current.appId = a) (ht : target.appId = a)
    (hnc : (current.services.map ContainerService.serviceId).Nodup)
    (hnt : (target.services.map ContainerService.serviceId).Nodup) (i : ℕ) :
    (planStepsToUpdateApp shouldRetry current target).filter (own a i) =
      serviceOps shouldRetry a i (findService current.services i)
        (findService target.services i) := by
  rw [filter_update_mapGet shouldRetry hc ht, mapGet_eq hnc, mapGet_eq hnt]

theorem filter_removeApp_all {a : ℕ} {current : DeviceApp} (hc : current.appId = a) (i : ℕ) :
    (planStepsToRemoveApp current).filter (own a i) =
      (current.services.filter (fun svc => svc.serviceId == i)).flatMap (removeSteps a i) := by
  unfold planStepsToRemoveApp
  rw [filter_flatMap_key ContainerService.serviceId _ _ i]
  · apply List.flatMap_congr
    intro svc hsvc
    have hid : svc.serviceId = i := by simpa using (List.mem_filter.mp hsvc).2
    rw [hid, hc, filter_removeSteps]
  · intro svc hne
    rw [hc]
    apply filter_own_of_within (removeSteps_within a svc.serviceId svc)
    intro he
    exact hne (Prod.mk.inj he).2.symm

theorem filter_addApp_all {a : ℕ} {target : DeviceApp} (ht : target.appId = a) (i : ℕ) :
    (planStepsToAddApp target).filter (own a i) =
      (target.services.filter (fun svc => svc.serviceId == i)).flatMap
        (fun svc => if desiredState svc = .running then [.startContainer a svc] else []) := by
  unfold planStepsToAddApp
  rw [filter_flatMap_key ContainerService.serviceId _ _ i]
  · apply List.flatMap_congr
    intro svc hsvc
    have hid : svc.serviceId = i := by simpa using (List.mem_filter.mp hsvc).2
    subst hid
    rw [ht, filter_addSteps]
  · intro svc hne
    rw [ht]
    apply filter_own_of_within (addSteps_within a svc)
    intro he
    exact hne (Prod.mk.inj he).2.symm

theorem filter_planStepsToRemoveApp {a : ℕ} {current : DeviceApp} (hc : current.appId = a)
    (hnc : (current.services.map ContainerService.serviceId).Nodup) (i : ℕ)
    (shouldRetry : String → Bool) :
    (planStepsToRemoveApp current).filter (own a i) =
      serviceOps shouldRetry a i (findService current.services i) none := by
  unfold planStepsToRemoveApp
  rw [filter_flatMap_of_key ContainerService.serviceId _ _ i _ _ hnc]
  · show (Option.map _ (findService current.services i)).getD [] = _
    cases hf : findService current.services i with
    | none => rfl
    | some svc =>
      rw [Option.map_some, Option.getD_some, findService_id hf, hc, filter_removeSteps]
      rfl
  · intro svc hne
    rw [hc]
    apply filter_own_of_within (removeSteps_within a svc.serviceId svc)
    intro he
    exact hne (Prod.mk.inj he).2.symm

theorem filter_planStepsToAddApp {a : ℕ} {target : DeviceApp} (ht : target.appId = a)
    (hnt : (target.services.map ContainerService.serviceId).Nodup) (i : ℕ) :
    (planStepsToAddApp target).filter (own a i) =
      serviceOps (fun _ => true) a i none (findService target.services i) := by
  unfold planStepsToAddApp
  rw [filter_flatMap_of_key ContainerService.serviceId _ _ i _ _ hnt]
  · show (Option.map _ (findService target.services i)).getD [] = _
    cases hf : findService target.services i with
    | none => rfl
    | some svc =>
      have hid := findService_id hf
      subst hid
      rw [Option.map_some, Option.getD_some, ht, filter_addSteps]
      simp [serviceOps]
  · intro svc hne
    rw [ht]
    apply filter_own_of_within (addSteps_within a svc)
    intro he
    exact hne (Prod.mk.inj he).2.symm

def retryFor (shouldRetry : String → Bool) (currentApp : Option DeviceApp) : String → Bool :=
  if currentApp.isSome then shouldRetry else fun _ => true

theorem filter_containerSteps (shouldRetry : String → Bool) {current target : DeviceState}
    (hc : Distinct current) (ht : Distinct target) (a i : ℕ) :
    (containerSteps shouldRetry (current.apps.find? a) (target.apps.find? a)).filter (own a i) =
      serviceOps (retryFor shouldRetry (current.apps.find? a)) a i
        (view current a i) (view target a i) := by
  cases hca : current.apps.find? a with
  | none =>
    rw [view_none hca]
    cases hta : target.apps.find? a with
    | none =>
      rw [view_none hta]
      rfl
    | some targetApp =>
      rw [view_eq hta]
      exact filter_planStepsToAddApp (mem_find? hta) (ht a targetApp hta) i
  | some currentApp =>
    rw [view_eq hca]
    cases hta : target.apps.find? a with
    | none =>
      rw [view_none hta]
      exact filter_planStepsToRemoveApp (mem_find? hca) (hc a currentApp hca) i _
    | some targetApp =>
      rw [view_eq hta]
      exact filter_planStepsToUpdateApp shouldRetry (mem_find? hca) (mem_find? hta)
        (hc a currentApp hca) (ht a targetApp hta) i

theorem filter_appSteps (shouldRetry : String → Bool) (b : ℕ)
    (currentApp targetApp : Option DeviceApp) (a i : ℕ) :
    (appSteps shouldRetry b currentApp targetApp).filter (own a i) =
      (containerSteps shouldRetry currentApp targetApp).filter (own a i) := by
  have hv := reconcileNames_idle namedVolumesOf (.createVolume b) (.removeVolume b)
    (fun _ => rfl) (fun _ => rfl) currentApp targetApp
  have hn := reconcileNames_idle networksOf (.createNetwork b) (.removeNetwork b)
    (fun _ => rfl) (fun _ => rfl) currentApp targetApp
  unfold appSteps reconcileVolumesForApp reconcileNetworksForApp
  simp only [List.filter_append, filter_own_of_idle hv, filter_own_of_idle hn, List.nil_append,
    List.append_nil]

theorem containerSteps_other (shouldRetry : String → Bool) {current target : DeviceState}
    {a b : ℕ} (hne : b ≠ a) (i : ℕ) :
    (containerSteps shouldRetry (current.apps.find? b) (target.apps.find? b)).filter (own a i) =
      [] := by
  have hpair : ∀ j, (a,i) ≠ (b,j) := by
    intro j he
    exact hne (Prod.mk.inj he).1.symm
  have hflat : ∀ {α : Type} (xs : List α) (f : α → List Step),
      (∀ x ∈ xs, (f x).filter (own a i) = []) → (xs.flatMap f).filter (own a i) = [] := by
    intro α xs f hf
    rw [List.filter_flatMap]
    simpa using hf
  cases hcb : current.apps.find? b with
  | none =>
    cases htb : target.apps.find? b with
    | none => rfl
    | some targetApp =>
      apply hflat
      intro svc _
      rw [mem_find? htb]
      exact filter_own_of_within (addSteps_within b svc) (hpair _)
  | some currentApp =>
    cases htb : target.apps.find? b with
    | none =>
      apply hflat
      intro svc _
      rw [mem_find? hcb]
      exact filter_own_of_within (removeSteps_within b _ svc) (hpair _)
    | some targetApp =>
      apply hflat
      intro j _
      rw [mem_find? hcb, mem_find? htb]
      apply filter_own_of_within (serviceSteps_within _ b j _ _ _) (hpair _)
      intro t h
      exact findService_id h

theorem filter_calculateSteps_of_app (shouldRetry : String → Bool) (current target : DeviceState)
    (a : ℕ) (p : Step → Bool) (hother : ∀ b, b ≠ a →
      (appSteps shouldRetry b (current.apps.find? b) (target.apps.find? b)).filter p = []) :
    (calculateSteps shouldRetry current target).filter p =
      (appSteps shouldRetry a (current.apps.find? a) (target.apps.find? a)).filter p := by
  unfold calculateSteps
  rw [filter_flatMap_of_key (fun b : ℕ => b) _ _ a]
  · rw [find?_ids]
    by_cases ha : a ∈ (current.apps.keys++target.apps.keys).eraseDups
    · simp only [ha, if_true, Option.map_some, Option.getD_some]
    · simp only [ha, if_false, Option.map_none, Option.getD_none]
      rw [List.mem_eraseDups, List.mem_append, not_or] at ha
      rw [KeyedRecords.find?_none_iff.mpr ha.1, KeyedRecords.find?_none_iff.mpr ha.2]
      rfl
  · exact hother
  · simpa using nodup_eraseDups _

theorem filter_calculateSteps_own (shouldRetry : String → Bool) (current target : DeviceState)
    (a i : ℕ) :
    (calculateSteps shouldRetry current target).filter (own a i) =
      (containerSteps shouldRetry (current.apps.find? a) (target.apps.find? a)).filter
        (own a i) := by
  rw [filter_calculateSteps_of_app shouldRetry current target a, filter_appSteps]
  intro b hb
  rw [filter_appSteps]
  exact containerSteps_other shouldRetry hb i

theorem filter_calculateSteps (shouldRetry : String → Bool) {current target : DeviceState}
    (hc : Distinct current) (ht : Distinct target) (a i : ℕ) :
    (calculateSteps shouldRetry current target).filter (own a i) =
      serviceOps (retryFor shouldRetry (current.apps.find? a)) a i
        (view current a i) (view target a i) := by
  rw [filter_calculateSteps_own, filter_containerSteps shouldRetry hc ht]

def cellSteps (shouldRetry : String → Bool) (a i : ℕ) :
    Option DeviceApp → Option DeviceApp → List Step
  | some currentApp, none =>
    (currentApp.services.filter (fun svc => svc.serviceId == i)).flatMap (removeSteps a i)
  | none, some targetApp =>
    (targetApp.services.filter (fun svc => svc.serviceId == i)).flatMap
      (fun svc => if desiredState svc = .running then [.startContainer a svc] else [])
  | some currentApp, some targetApp =>
    serviceOps shouldRetry a i (mapGet currentApp.services i) (mapGet targetApp.services i)
  | none, none => []

theorem filter_containerSteps_cell (shouldRetry : String → Bool) (current target : DeviceState)
    (a i : ℕ) :
    (containerSteps shouldRetry (current.apps.find? a) (target.apps.find? a)).filter (own a i) =
      cellSteps shouldRetry a i (current.apps.find? a) (target.apps.find? a) := by
  cases hca : current.apps.find? a with
  | none =>
    cases hta : target.apps.find? a with
    | none => rfl
    | some targetApp => exact filter_addApp_all (mem_find? hta) i
  | some currentApp =>
    cases hta : target.apps.find? a with
    | none => exact filter_removeApp_all (mem_find? hca) i
    | some targetApp => exact filter_update_mapGet shouldRetry (mem_find? hca) (mem_find? hta) i

theorem filter_calculateSteps_cell (shouldRetry : String → Bool) (current target : DeviceState)
    (a i : ℕ) :
    (calculateSteps shouldRetry current target).filter (own a i) =
      cellSteps shouldRetry a i (current.apps.find? a) (target.apps.find? a) := by
  rw [filter_calculateSteps_own, filter_containerSteps_cell]

def LeavesAlone (plan : List Step) (a i : ℕ) : Prop :=
  ∀ step ∈ plan, step.subject ≠ some (a,i)

theorem leavesAlone_iff (plan : List Step) (a i : ℕ) :
    LeavesAlone plan a i ↔ plan.filter (own a i) = [] := by
  unfold LeavesAlone
  rw [List.filter_eq_nil_iff]
  apply forall_congr'
  intro step
  apply imp_congr_right
  intro _
  simp [own, ofCell]

theorem serviceOps_quiet_iff (shouldRetry : String → Bool) (a i : ℕ) {c t : ContainerService}
    (hc : (container c).isSome) (he : desiredState c = desiredState t) :
    serviceOps shouldRetry a i (some c) (some t) = [] ↔ needsUpdate c t = false := by
  obtain ⟨id,hid⟩ := Option.isSome_iff_exists.mp hc
  simp only [serviceOps, hid, he, if_true]
  cases needsUpdate c t <;> simp

end Iotistica.ContainerCells
