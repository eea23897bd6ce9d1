import Iotistica.ContainerTurnover
import Iotistica.ContainerConvergence

/-!
# When a plan removes only what is unused

The creations of a plan always come first. Its removals are safe exactly if
the containers that outlive it use only what the target app still names.
-/

set_option autoImplicit false

namespace Iotistica.ContainerSafety
open Iotistica Iotistica.GuardedRun Iotistica.CellRun Iotistica.ContainerState
  Iotistica.ContainerPlanner Iotistica.ContainerExecutor Iotistica.ContainerCells
  Iotistica.ContainerResources Iotistica.ContainerConvergence Iotistica.ContainerOrdering
  Iotistica.ContainerTurnover

theorem mem_names {f : ContainerService → List String} {app : Option DeviceApp} {n : String} :
    n ∈ namesOf f app ↔ ∃ svc ∈ servicesOf app, n ∈ f svc := by
  simp [namesOf, List.mem_eraseDups]

@[simp] theorem isCreate_createStep (kind : Resource) (a : ℕ) (n : String) :
    (createStep kind a n).isCreate = true := by
  cases kind <;> rfl

@[simp] theorem isCreate_removeStep (kind : Resource) (a : ℕ) (n : String) :
    (removeStep kind a n).isCreate = false := by
  cases kind <;> rfl

@[simp] theorem isRemove_removeStep (kind : Resource) (a : ℕ) (n : String) :
    (removeStep kind a n).isRemove = true := by
  cases kind <;> rfl

@[simp] theorem isRemove_createStep (kind : Resource) (a : ℕ) (n : String) :
    (createStep kind a n).isRemove = false := by
  cases kind <;> rfl

section App
variable {a : ℕ} {currentApp targetApp : Option DeviceApp}

theorem createStep_mem {kind : Resource} {n : String}
    (ht : n ∈ namesOf (uses kind) targetApp) (hc : n ∉ namesOf (uses kind) currentApp) :
    createStep kind a n ∈ (reconcile kind a currentApp targetApp).filter Step.isCreate := by
  apply List.mem_filter.mpr
  refine ⟨List.mem_append_left _ ?_,by simp⟩
  exact List.mem_map_of_mem (List.mem_filter.mpr ⟨ht,by simpa using hc⟩)

theorem removeStep_mem {kind : Resource} {n : String}
    (hc : n ∈ namesOf (uses kind) currentApp) (ht : n ∉ namesOf (uses kind) targetApp) :
    removeStep kind a n ∈ (reconcile kind a currentApp targetApp).filter Step.isRemove := by
  apply List.mem_filter.mpr
  refine ⟨List.mem_append_right _ ?_,by simp⟩
  exact List.mem_map_of_mem (List.mem_filter.mpr ⟨hc,by simpa using ht⟩)

theorem names_of_removeStep {kind kind' : Resource} {n : String}
    (h : removeStep kind a n ∈ (reconcile kind' a currentApp targetApp).filter Step.isRemove) :
    n ∈ namesOf (uses kind) currentApp ∧ n ∉ namesOf (uses kind) targetApp := by
  have hmem := (List.mem_filter.mp h).1
  unfold reconcile reconcileNamesForApp at hmem
  rcases List.mem_append.mp hmem with hm | hm
  · obtain ⟨m,_,he⟩ := List.mem_map.mp hm
    cases kind <;> cases kind' <;> cases he
  · obtain ⟨m,hm',he⟩ := List.mem_map.mp hm
    have hn := List.mem_filter.mp hm'
    cases kind <;> cases kind' <;> cases he
    · exact ⟨hn.1,by simpa using hn.2⟩
    · exact ⟨hn.1,by simpa using hn.2⟩

theorem reconcile_idle {kind : Resource} {st : Step}
    (h : st ∈ reconcile kind a currentApp targetApp) : acting st = false := by
  obtain ⟨n,rfl | rfl⟩ := mem_reconcile h
  · simp
  · simp

theorem filter_acting_reconcile (kind : Resource) (p : Step → Bool) :
    ((reconcile kind a currentApp targetApp).filter p).filter acting = [] := by
  apply List.filter_eq_nil_iff.mpr
  intro st hst
  simp [reconcile_idle (List.mem_of_mem_filter hst)]

end App

section Plan
variable (shouldRetry : String → Bool) (current target : DeviceState) (a : ℕ)

def creations : List Step :=
  (reconcile .volume a (current.apps.find? a) (target.apps.find? a)).filter Step.isCreate++
    (reconcile .network a (current.apps.find? a) (target.apps.find? a)).filter Step.isCreate

def removals : List Step :=
  (reconcile .network a (current.apps.find? a) (target.apps.find? a)).filter Step.isRemove++
    (reconcile .volume a (current.apps.find? a) (target.apps.find? a)).filter Step.isRemove

theorem appSteps_parts :
    appSteps shouldRetry a (current.apps.find? a) (target.apps.find? a) =
      creations current target a++
        (containerSteps shouldRetry (current.apps.find? a) (target.apps.find? a)++
          removals current target a) := by
  rw [appSteps_eq]
  simp [creations, removals]

theorem creations_isCreate {st : Step} (h : st ∈ creations current target a) :
    st.isCreate = true := by
  rcases List.mem_append.mp h with h | h
  · exact (List.mem_filter.mp h).2
  · exact (List.mem_filter.mp h).2

theorem removals_isRemove {st : Step} (h : st ∈ removals current target a) :
    st.isRemove = true := by
  rcases List.mem_append.mp h with h | h
  · exact (List.mem_filter.mp h).2
  · exact (List.mem_filter.mp h).2

variable {current target a}

theorem removal_after_containers {kind : Resource} {n : String} {pre post : List Step}
    (h : appSteps shouldRetry a (current.apps.find? a) (target.apps.find? a) =
      pre++removeStep kind a n::post) :
    pre.filter acting =
        (containerSteps shouldRetry (current.apps.find? a) (target.apps.find? a)).filter acting ∧
      n ∈ namesOf (uses kind) (current.apps.find? a) ∧
      n ∉ namesOf (uses kind) (target.apps.find? a) := by
  rw [appSteps_parts] at h
  have hnc : removeStep kind a n ∉ creations current target a := by
    intro hmem
    have hcreate := creations_isCreate current target a hmem
    simp at hcreate
  obtain ⟨pre₁,rfl,h₁⟩ := split_after h hnc
  have hns : removeStep kind a n ∉
      containerSteps shouldRetry (current.apps.find? a) (target.apps.find? a) := by
    intro hmem
    have hplain := (containerSteps_ofContainer shouldRetry a _ hmem).2.2
    simp at hplain
  obtain ⟨pre₂,rfl,h₂⟩ := split_after h₁ hns
  have hidle : (removals current target a).filter acting = [] := by
    unfold removals
    rw [List.filter_append, filter_acting_reconcile, filter_acting_reconcile]
    rfl
  have hcreate : (creations current target a).filter acting = [] := by
    unfold creations
    rw [List.filter_append, filter_acting_reconcile, filter_acting_reconcile]
    rfl
  rw [h₂, List.filter_append] at hidle
  constructor
  · rw [List.filter_append, List.filter_append, hcreate, (List.append_eq_nil_iff.mp hidle).1]
    simp
  · have hmem : removeStep kind a n ∈ removals current target a := by
      rw [h₂]
      simp
    rcases List.mem_append.mp hmem with hm | hm
    · exact names_of_removeStep hm
    · exact names_of_removeStep hm

theorem start_of_target {svc : ContainerService}
    (h : Step.startContainer a svc ∈
      containerSteps shouldRetry (current.apps.find? a) (target.apps.find? a)) :
    svc ∈ servicesOf (target.apps.find? a) := by
  have hnew : creates (fun _ _ => none) svc (.startContainer a svc) := rfl
  cases hca : current.apps.find? a with
  | none =>
    cases hta : target.apps.find? a with
    | none =>
      rw [hca, hta] at h
      cases h
    | some targetApp =>
      rw [hca, hta] at h
      obtain ⟨t,ht,hst⟩ := List.mem_flatMap.mp h
      rw [addSteps_creates _ t svc ⟨_,hst,hnew⟩]
      exact ht
  | some currentApp =>
    cases hta : target.apps.find? a with
    | none =>
      rw [hca, hta] at h
      obtain ⟨c,_,hst⟩ := List.mem_flatMap.mp h
      exact absurd ⟨_,hst,hnew⟩ (removeSteps_creates _ _ c svc)
    | some targetApp =>
      rw [hca, hta] at h
      have hex := (exists_mem_update shouldRetry currentApp targetApp
        (creates (fun _ _ => none) svc)).mp ⟨_,h,hnew⟩
      obtain ⟨i,hi⟩ := hex
      rw [mem_find? hca, mem_find? hta] at hi
      rcases serviceSteps_creates shouldRetry a i _ _ svc hi with hm | hm
      · exact List.mem_reverse.mp (findService_mem hm)
      · obtain ⟨_,_,_,_,_,_,_,hl⟩ := hm
        cases hl

theorem creation_before_start {svc : ContainerService} {pre post : List Step}
    (h : calculateSteps shouldRetry current target = pre++Step.startContainer a svc::post)
    (kind : Resource) (n : String) (hn : n ∈ uses kind svc) :
    n ∈ namesOf (uses kind) (current.apps.find? a) ∨ createStep kind a n ∈ pre := by
  have hf := filter_calculateSteps_app shouldRetry current target a
  rw [h, List.filter_append, List.filter_cons, if_pos (by simp [ofApp, appOf]),
    appSteps_parts] at hf
  have hnc : Step.startContainer a svc ∉ creations current target a := by
    intro hmem
    have hcreate := creations_isCreate current target a hmem
    cases hcreate
  obtain ⟨rest,hpre,hrest⟩ := split_after hf.symm hnc
  have hmem : Step.startContainer a svc ∈
      containerSteps shouldRetry (current.apps.find? a) (target.apps.find? a)++
        removals current target a := by
    rw [hrest]
    simp
  have htarget : svc ∈ servicesOf (target.apps.find? a) := by
    rcases List.mem_append.mp hmem with hm | hm
    · exact start_of_target shouldRetry hm
    · have hremove := removals_isRemove current target a hm
      cases hremove
  by_cases hc : n ∈ namesOf (uses kind) (current.apps.find? a)
  · exact Or.inl hc
  · right
    have hcreate := createStep_mem (a := a) (mem_names.mpr ⟨svc,htarget,hn⟩) hc
    have hin : createStep kind a n ∈ pre.filter (ofApp a) := by
      rw [hpre]
      apply List.mem_append_left
      cases kind with
      | network => exact List.mem_append_right _ hcreate
      | volume => exact List.mem_append_left _ hcreate
    exact List.mem_of_mem_filter hin

theorem remaining_update {currentApp targetApp : DeviceApp}
    (hc : current.apps.find? a = some currentApp) (ht : target.apps.find? a = some targetApp)
    (attempts : List Attempt)
    (hmap : (attempts.map Prod.fst).filter acting = (containerSteps shouldRetry
      (current.apps.find? a) (target.apps.find? a)).filter acting) (svc : ContainerService) :
    (svc ∈ remaining current a attempts → svc ∈ targetApp.services ∨
        Outlives currentApp targetApp svc) ∧
      (Outlives currentApp targetApp svc → svc ∈ remaining current a attempts) := by
  have hdrops := update_drops shouldRetry hc ht
  rw [mem_remaining shouldRetry attempts hmap, hc, ht]
  simp only [containerSteps, servicesOf, Option.map_some, Option.getD_some, hdrops]
  constructor
  · rintro (h | h)
    · exact Or.inr (Or.inl h)
    · rcases update_creates shouldRetry hc ht svc h with h | h
      · exact Or.inl h
      · exact Or.inr (Or.inr h)
  · rintro (h | h)
    · exact Or.inl h
    · exact Or.inr (creates_of_restarted shouldRetry hc ht h)

theorem remaining_remove {currentApp : DeviceApp} (hc : current.apps.find? a = some currentApp)
    (ht : target.apps.find? a = none) (attempts : List Attempt)
    (hmap : (attempts.map Prod.fst).filter acting = (containerSteps shouldRetry
      (current.apps.find? a) (target.apps.find? a)).filter acting) (svc : ContainerService) :
    svc ∉ remaining current a attempts := by
  rw [mem_remaining shouldRetry attempts hmap, hc, ht]
  rintro (⟨hsvc,id,hid,hkept⟩ | ⟨st,hst,hnew⟩)
  · apply hkept
    have hdrop : ∃ st ∈ removeSteps currentApp.appId svc.serviceId svc,
        dropsId (view current) id st := (removeSteps_drops _ _ svc id).mpr hid
    obtain ⟨st,hst,hd⟩ := hdrop
    exact ⟨st,List.mem_flatMap.mpr ⟨svc,hsvc,hst⟩,hd⟩
  · obtain ⟨c,_,hc'⟩ := List.mem_flatMap.mp hst
    exact removeSteps_creates _ _ c svc ⟨st,hc',hnew⟩

theorem mem_services_of_outlives {currentApp targetApp : DeviceApp} {svc : ContainerService}
    (h : Outlives currentApp targetApp svc) : svc ∈ currentApp.services := by
  rcases h with ho | ho
  · exact ho.1
  · obtain ⟨_,_,_,_,_,_,_,_,hf⟩ := ho
    exact findService_mem hf

theorem removeStep_mem_appSteps {kind : Resource} {n : String}
    (hname : n ∈ namesOf (uses kind) (current.apps.find? a))
    (hgone : n ∉ namesOf (uses kind) (target.apps.find? a)) :
    removeStep kind a n ∈
      appSteps shouldRetry a (current.apps.find? a) (target.apps.find? a) := by
  rw [appSteps_parts]
  apply List.mem_append_right
  apply List.mem_append_right
  have hmem := removeStep_mem (a := a) hname hgone
  cases kind with
  | network => exact List.mem_append_left _ hmem
  | volume => exact List.mem_append_right _ hmem

variable (current target)

theorem calculateSteps_ordered_iff :
    OrderedPlan current (calculateSteps shouldRetry current target) ↔
      ∀ a currentApp targetApp, current.apps.find? a = some currentApp →
        target.apps.find? a = some targetApp → ∀ svc, Outlives currentApp targetApp svc →
          ∀ kind, ∀ n ∈ uses kind svc, n ∈ namesOf (uses kind) (some targetApp) := by
  constructor
  · intro h a currentApp targetApp hc ht svc hout kind n hn
    by_contra hgone
    have hname : n ∈ namesOf (uses kind) (current.apps.find? a) := by
      rw [hc]
      exact mem_names.mpr ⟨svc,mem_services_of_outlives hout,hn⟩
    rw [← ht] at hgone
    obtain ⟨pre,post,hsplit⟩ := List.append_of_mem (removeStep_mem_appSteps shouldRetry hname hgone)
    have hplan := filter_calculateSteps_app shouldRetry current target a
    rw [hsplit] at hplan
    obtain ⟨pre',post',hplan',hpre⟩ := split_of_filter hplan
    have hmap : (pre.map (fun st => (st,sampleReply))).map Prod.fst = pre := by
      simp [Function.comp_def]
    apply h.removal kind a n pre' post' hplan' (pre.map (fun st => (st,sampleReply)))
      (by rw [hmap, hpre])
    · intro x hx
      obtain ⟨_,_,rfl⟩ := List.mem_map.mp hx
      exact sampleReply_succeeds
    · apply (remaining_update shouldRetry hc ht _ _ svc).2 hout
      rw [hmap]
      exact (removal_after_containers shouldRetry hsplit).1
    · exact hn
  · intro h
    constructor
    · intro kind a n pre post hplan attempts hmap _ svc hsvc hn
      have happ := filter_calculateSteps_app shouldRetry current target a
      rw [hplan, List.filter_append, List.filter_cons, if_pos (by simp [ofApp])] at happ
      have hafter := removal_after_containers shouldRetry happ.symm
      rw [← hmap] at hafter
      obtain ⟨c,hc,_⟩ := mem_names.mp hafter.2.1
      cases hca : current.apps.find? a with
      | none =>
        rw [hca] at hc
        cases hc
      | some currentApp =>
        cases hta : target.apps.find? a with
        | none => exact remaining_remove shouldRetry hca hta attempts hafter.1 svc hsvc
        | some targetApp =>
          apply hafter.2.2
          rw [hta]
          rcases (remaining_update shouldRetry hca hta attempts hafter.1 svc).1 hsvc with ht | ho
          · exact mem_names.mpr ⟨svc,ht,hn⟩
          · exact h a currentApp targetApp hca hta svc ho kind n hn
    · intro a svc pre post hplan kind n hn
      exact creation_before_start shouldRetry hplan kind n hn

end Plan

def deviceOn (networks : List String) (state : Lifecycle) (containerId : Option String) :
    DeviceState where
  apps := ⟨[⟨1,"shop",none,
    [{ serviceId := 1, serviceName := "web", imageName := "web:1", appId := 1, appName := "shop",
       state := some state, config := { networks := some networks },
       containerId := containerId }]⟩],by simp⟩

/-- A service to be stopped and taken off its network is stopped, and the
network is removed under the container that still has it. -/
theorem stop_removes_used_network :
    ¬OrderedPlan (deviceOn ["front"] .running (some "aa"))
      (calculateSteps (fun _ => true) (deviceOn ["front"] .running (some "aa"))
        (deviceOn [] .stopped none)) := by
  intro h
  have hplan : calculateSteps (fun _ => true) (deviceOn ["front"] .running (some "aa"))
      (deviceOn [] .stopped none) =
        [Step.stopContainer 1 1 "aa"]++removeStep .network 1 "front"::[] := by decide
  have hmap : [((Step.stopContainer 1 1 "aa",sampleReply) : Attempt)].map Prod.fst =
      [Step.stopContainer 1 1 "aa"].filter (ofApp 1) := by decide
  have hleft := h.removal .network 1 "front" _ [] hplan [(.stopContainer 1 1 "aa",sampleReply)]
    hmap (by simp [sampleReply_succeeds])
  revert hleft
  decide

end Iotistica.ContainerSafety
