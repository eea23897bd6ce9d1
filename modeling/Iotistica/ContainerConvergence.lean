import Iotistica.ContainerCells
import Iotistica.ContainerExecutor
import Iotistica.ContainerComparison

/-!
# Reconciling running services converges

`settled` is the entry a service has once its steps are executed. After a
pass in which every call succeeds each service agrees with its target, so
nothing is left to do for containers, networks and volumes. The status of a
container needs no assumption: one that has exited is created anew.
-/

set_option autoImplicit false

namespace Iotistica.ContainerSettling
open Iotistica Iotistica.GuardedRun Iotistica.CellRun Iotistica.ContainerState
  Iotistica.ContainerPlanner Iotistica.ContainerExecutor Iotistica.ContainerCells

/-- The entry after a change of state. A container that was stopped is
created anew from its old entry. -/
def moved (id : String) (current : ContainerService) (target : Lifecycle) : ContainerService :=
  match desiredState current, target with
  | .stopped, .running => started current id
  | .stopped, .paused => setState .paused (started current id)
  | _, state => setState state current

def settled (shouldRetry : String → Bool) (id : String) :
    Option ContainerService → Option ContainerService → Option ContainerService
  | none, none => none
  | some currentSvc, none => if (container currentSvc).isSome then none else some currentSvc
  | none, some targetSvc =>
    if shouldRetry (imageKey targetSvc.imageName) ∧ desiredState targetSvc = .running then
      some (started targetSvc id)
    else none
  | some currentSvc, some targetSvc =>
    if (container currentSvc).isSome then
      if desiredState currentSvc = desiredState targetSvc then
        if needsUpdate currentSvc targetSvc then some (started targetSvc id) else some currentSvc
      else some (moved id currentSvc (desiredState targetSvc))
    else some currentSvc

/-- The steps of a service start its container only where it has no entry,
and they leave the settled entry. -/
def Settles (attempts : List Attempt) (shouldRetry : String → Bool)
    (current target : Option ContainerService) : Prop :=
  Meets effect Vacant attempts current ∧
    ∃ id, id ≠ "" ∧ run effect attempts current = settled shouldRetry id current target

theorem attempts_cons {attempts : List Attempt} {x : Step} {xs : List Step}
    (h : attempts.map Prod.fst = x::xs) (hs : ∀ p ∈ attempts, p.2.Succeeds) :
    ∃ r rest, attempts = (x,r)::rest ∧ r.Succeeds ∧ rest.map Prod.fst = xs ∧
      ∀ p ∈ rest, p.2.Succeeds := by
  obtain ⟨p,rest,rfl,hp,hrest⟩ := List.map_eq_cons_iff.mp h
  refine ⟨p.2,rest,by rw [← hp],hs p (by simp),hrest,?_⟩
  intro q hq
  exact hs q (List.mem_cons_of_mem _ hq)

theorem attempts_one {attempts : List Attempt} {x : Step} (h : attempts.map Prod.fst = [x])
    (hs : ∀ p ∈ attempts, p.2.Succeeds) : ∃ r, attempts = [(x,r)] ∧ r.Succeeds := by
  obtain ⟨r,rest,rfl,hr,hrest,_⟩ := attempts_cons h hs
  obtain rfl := List.map_eq_nil_iff.mp hrest
  exact ⟨r,rfl,hr⟩

theorem settles_nil {attempts : List Attempt} (h : attempts.map Prod.fst = [])
    {shouldRetry : String → Bool} {current target : Option ContainerService}
    (hs : settled shouldRetry "-" current target = current) :
    Settles attempts shouldRetry current target := by
  obtain rfl := List.map_eq_nil_iff.mp h
  exact ⟨trivial,"-",by decide,hs.symm⟩

theorem transition_settles {a i : ℕ} {id : String} {current : ContainerService} {y : Lifecycle}
    (hne : desiredState current ≠ y) (attempts : List Attempt)
    (hmap : attempts.map Prod.fst = transitionSteps a i id (desiredState current) y)
    (hs : ∀ x ∈ attempts, x.2.Succeeds) :
    Meets effect Vacant attempts (some current) ∧
      ∃ new, new ≠ "" ∧ run effect attempts (some current) = some (moved new current y) := by
  cases hx : desiredState current with
  | running =>
    rw [hx] at hne hmap
    cases y with
    | running => exact absurd rfl hne
    | stopped =>
      obtain ⟨r,rfl,hr⟩ := attempts_one hmap hs
      exact ⟨⟨hr,trivial⟩,r.containerId,hr.named,by simp [effect, moved, hx]⟩
    | paused =>
      obtain ⟨r,rfl,hr⟩ := attempts_one hmap hs
      exact ⟨⟨hr,trivial⟩,r.containerId,hr.named,by simp [effect, moved, hx]⟩
  | stopped =>
    rw [hx] at hne hmap
    cases y with
    | stopped => exact absurd rfl hne
    | running =>
      obtain ⟨r,rfl,hr⟩ := attempts_one hmap hs
      exact ⟨⟨hr,trivial⟩,r.containerId,hr.named,by simp [effect, moved, hx]⟩
    | paused =>
      obtain ⟨r,rest,rfl,hr,hrest,hs'⟩ := attempts_cons hmap hs
      obtain ⟨r',rfl,hr'⟩ := attempts_one hrest hs'
      exact ⟨⟨hr,hr',trivial⟩,r.containerId,hr.named,by simp [effect, moved, hx]⟩
  | paused =>
    rw [hx] at hne hmap
    cases y with
    | paused => exact absurd rfl hne
    | running =>
      obtain ⟨r,rfl,hr⟩ := attempts_one hmap hs
      exact ⟨⟨hr,trivial⟩,r.containerId,hr.named,by simp [effect, moved, hx]⟩
    | stopped =>
      obtain ⟨r,rest,rfl,hr,hrest,hs'⟩ := attempts_cons hmap hs
      obtain ⟨r',rfl,hr'⟩ := attempts_one hrest hs'
      exact ⟨⟨hr,hr',trivial⟩,r.containerId,hr.named,by simp [effect, moved, hx, setState]⟩

theorem serviceOps_settles (shouldRetry : String → Bool) (a i : ℕ)
    (current target : Option ContainerService) (attempts : List Attempt)
    (hmap : attempts.map Prod.fst = serviceOps shouldRetry a i current target)
    (hs : ∀ x ∈ attempts, x.2.Succeeds) : Settles attempts shouldRetry current target := by
  cases current with
  | none =>
    cases target with
    | none => exact settles_nil hmap rfl
    | some t =>
      by_cases hp : shouldRetry (imageKey t.imageName) ∧ desiredState t = .running
      · simp only [serviceOps, hp, and_self, if_true] at hmap
        obtain ⟨r,rfl,hr⟩ := attempts_one hmap hs
        exact ⟨⟨⟨hr,rfl⟩,trivial⟩,r.containerId,hr.named,by simp [effect, settled, hp]⟩
      · simp only [serviceOps, hp, if_false] at hmap
        exact settles_nil hmap (by simp only [settled, hp, if_false])
  | some c =>
    cases hcont : container c with
    | none =>
      cases target with
      | none =>
        simp only [serviceOps, removeSteps, hcont] at hmap
        exact settles_nil hmap (by simp [settled, hcont])
      | some t =>
        simp only [serviceOps, hcont] at hmap
        exact settles_nil hmap (by simp [settled, hcont])
    | some id =>
      cases target with
      | none =>
        simp only [serviceOps, removeSteps, hcont] at hmap
        obtain ⟨r,rest,rfl,hr,hrest,hs'⟩ := attempts_cons hmap hs
        obtain ⟨r',rfl,hr'⟩ := attempts_one hrest hs'
        exact ⟨⟨hr,hr',trivial⟩,r.containerId,hr.named,by simp [effect, settled, hcont]⟩
      | some t =>
        by_cases he : desiredState c = desiredState t
        · by_cases hu : needsUpdate c t
          · simp only [serviceOps, hcont, he, hu, if_true] at hmap
            obtain ⟨r,rest,rfl,hr,hrest,hs'⟩ := attempts_cons hmap hs
            obtain ⟨r',rest',rfl,hr',hrest',hs''⟩ := attempts_cons hrest hs'
            obtain ⟨r'',rfl,hr''⟩ := attempts_one hrest' hs''
            exact ⟨⟨hr,hr',⟨hr'',rfl⟩,trivial⟩,r''.containerId,hr''.named,
              by simp [effect, settled, hcont, he, hu]⟩
          · simp only [serviceOps, hcont, he, hu, if_true] at hmap
            exact settles_nil hmap (by simp [settled, hcont, he, hu])
        · simp only [serviceOps, hcont, he, if_false] at hmap
          have ht := transition_settles he attempts hmap hs
          obtain ⟨new,hnew,hrun⟩ := ht.2
          exact ⟨ht.1,new,hnew,by simp [settled, hcont, he, hrun]⟩

theorem filter_answered (replies : ℕ → Reply) (steps : List Step) (a i : ℕ) :
    ((answered replies steps).filter (ofCell subjectOf (a,i))).map Prod.fst =
      steps.filter (own a i) := by
  have h := List.filter_map (f := Prod.fst) (p := own a i) (l := answered replies steps)
  rw [map_fst_answered] at h
  rw [h]
  rfl

theorem applyTargetState_view (shouldRetry : String → Bool) {replies : ℕ → Reply}
    (hs : ∀ n, (replies n).Succeeds) {current target : DeviceState} (hc : Distinct current)
    (ht : Distinct target) :
    Distinct (applyTargetState shouldRetry replies current target) ∧
      ∀ a i, ∃ id, id ≠ "" ∧ view (applyTargetState shouldRetry replies current target) a i =
        settled (retryFor shouldRetry (current.apps.find? a)) id
          (view current a i) (view target a i) := by
  have hsettles : ∀ k : ℕ × ℕ,
      Settles ((answered replies (calculateSteps shouldRetry current target)).filter
        (ofCell subjectOf k)) (retryFor shouldRetry (current.apps.find? k.1))
        (viewAt current k) (viewAt target k) := by
    intro k
    apply serviceOps_settles _ k.1 k.2
    · rw [filter_answered, filter_calculateSteps shouldRetry hc ht]
      rfl
    · intro x hx
      obtain ⟨n,hn⟩ := mem_answered (List.mem_of_mem_filter hx)
      rw [hn]
      exact hs n
  have hrun := executeSteps_view (answered replies (calculateSteps shouldRetry current target))
    current hc (fun k => (hsettles k).1)
  refine ⟨hrun.1,fun a i => ?_⟩
  obtain ⟨id,hid,he⟩ := (hsettles (a,i)).2
  refine ⟨id,hid,?_⟩
  have hview := hrun.2 (a,i)
  rw [he] at hview
  exact hview

end Iotistica.ContainerSettling

namespace Iotistica.ContainerConvergence
open Iotistica Iotistica.ContainerState Iotistica.ContainerPlanner Iotistica.ContainerExecutor
  Iotistica.ContainerCells Iotistica.ContainerSettling Iotistica.ContainerComparison

/-- What a running service has in a state: the state unset or running, and
its networks and volumes in the configuration only. -/
def Plain (service : ContainerService) : Prop :=
  desiredState service = .running ∧ service.networks = none ∧ service.volumes = none

structure RunningTarget (s : DeviceState) : Prop where
  distinct : Distinct s
  plain : ∀ app ∈ s.apps.items, ∀ service ∈ app.services, Plain service

structure RunningCurrent (s : DeviceState) : Prop extends RunningTarget s where
  created : ∀ app ∈ s.apps.items, ∀ service ∈ app.services, (container service).isSome

theorem view_mem {s : DeviceState} {a i : ℕ} {service : ContainerService}
    (h : view s a i = some service) :
    ∃ app ∈ s.apps.items, service ∈ app.services := by
  cases hf : s.apps.find? a with
  | none =>
    rw [view_none hf] at h
    cases h
  | some app =>
    rw [view_eq hf] at h
    exact ⟨app,List.mem_of_find?_eq_some hf,findService_mem h⟩

theorem RunningTarget.plain_view {s : DeviceState} (h : RunningTarget s) {a i : ℕ}
    {service : ContainerService} (hv : view s a i = some service) : Plain service := by
  obtain ⟨app,happ,hsvc⟩ := view_mem hv
  exact h.plain app happ service hsvc

theorem RunningCurrent.created_view {s : DeviceState} (h : RunningCurrent s) {a i : ℕ}
    {service : ContainerService} (hv : view s a i = some service) :
    (container service).isSome := by
  obtain ⟨app,happ,hsvc⟩ := view_mem hv
  exact h.created app happ service hsvc

def Agrees : Option ContainerService → Option ContainerService → Prop
  | none, none => True
  | some c, some t => desiredState c = desiredState t ∧ needsUpdate c t = false ∧
      (networksOf c).Perm (networksOf t) ∧ (namedVolumesOf c).Perm (namedVolumesOf t)
  | _, _ => False

theorem eq_none_of_agrees {t : Option ContainerService} (h : Agrees none t) : t = none := by
  cases t with
  | none => rfl
  | some t => exact h.elim

theorem agrees_none {c : Option ContainerService} (h : Agrees c none) : c = none := by
  cases c with
  | none => rfl
  | some c => exact h.elim

theorem agrees_started (t : ContainerService) (id : String) :
    Agrees (some (started t id)) (some t) :=
  ⟨rfl,needsUpdate_started t id,List.Perm.refl _,List.Perm.refl _⟩

/-- With networks and volumes in the configuration only, what the planner
compares decides what it collects. -/
theorem agrees_kept {c t : ContainerService} (hc : Plain c) (ht : Plain t)
    (hu : needsUpdate c t = false) : Agrees (some c) (some t) := by
  have hagree := ((needsUpdate_iff c t).mp hu).2.1
  refine ⟨hc.1.trans ht.1.symm,hu,?_,?_⟩
  · have hcn : networksOf c = c.config.networks.getD [] := by simp [networksOf, hc.2.1]
    have htn : networksOf t = t.config.networks.getD [] := by simp [networksOf, ht.2.1]
    rw [hcn, htn]
    exact hagree.networks
  · have hcv : (c.config.volumes <|> c.volumes).getD [] = c.config.volumes.getD [] := by
      simp [hc.2.2]
    have htv : (t.config.volumes <|> t.volumes).getD [] = t.config.volumes.getD [] := by
      simp [ht.2.2]
    unfold namedVolumesOf
    rw [hcv, htv]
    exact (hagree.volumes.filter _).map _

theorem settled_agrees {shouldRetry : String → Bool} (hretry : ∀ k, shouldRetry k = true)
    (id : String) {current target : Option ContainerService}
    (hc : ∀ c ∈ current, Plain c ∧ (container c).isSome) (ht : ∀ t ∈ target, Plain t) :
    Agrees (settled shouldRetry id current target) target := by
  cases current with
  | none =>
    cases target with
    | none => trivial
    | some t =>
      have hd := (ht t rfl).1
      simp only [settled, hretry, hd, and_self, if_true]
      exact agrees_started t id
  | some c =>
    have hp := (hc c rfl).1
    have hcont := (hc c rfl).2
    cases target with
    | none =>
      simp only [settled, hcont, if_true]
      trivial
    | some t =>
      have hpt := ht t rfl
      have he : desiredState c = desiredState t := hp.1.trans hpt.1.symm
      simp only [settled, hcont, he, if_true]
      by_cases hu : needsUpdate c t = true
      · rw [if_pos hu]
        exact agrees_started t id
      · rw [if_neg hu]
        exact agrees_kept hp hpt (by simpa using hu)

theorem serviceSteps_agrees (shouldRetry : String → Bool) (a b i : ℕ)
    {current target : Option ContainerService} (h : Agrees current target) :
    serviceSteps shouldRetry a b i current target = [] := by
  cases current with
  | none =>
    cases target with
    | none => rfl
    | some t => exact h.elim
  | some c =>
    cases target with
    | none => exact h.elim
    | some t =>
      simp only [serviceSteps]
      cases container c with
      | none => rfl
      | some id => simp [h.1, updateSteps, h.2.1]

theorem servicesOf_nil {s : DeviceState} (hd : Distinct s) {a : ℕ}
    (h : ∀ i, view s a i = none) : servicesOf (s.apps.find? a) = [] := by
  cases hf : s.apps.find? a with
  | none => rfl
  | some app =>
    apply List.eq_nil_iff_forall_not_mem.mpr
    intro service hs
    have hfind := findService_of_mem (hd a app hf) hs
    rw [← view_eq hf, h] at hfind
    cases hfind

theorem containerSteps_agrees (shouldRetry : String → Bool) {current target : DeviceState}
    (hc : Distinct current) (ht : Distinct target) {a : ℕ}
    (h : ∀ i, Agrees (view current a i) (view target a i)) :
    containerSteps shouldRetry (current.apps.find? a) (target.apps.find? a) = [] := by
  cases hca : current.apps.find? a with
  | none =>
    cases hta : target.apps.find? a with
    | none => rfl
    | some targetApp =>
      have hnil := servicesOf_nil ht (a := a) (fun i => by
        have hi := h i
        rw [view_none hca] at hi
        exact eq_none_of_agrees hi)
      rw [hta] at hnil
      have hs : targetApp.services = [] := hnil
      simp [containerSteps, planStepsToAddApp, hs]
  | some currentApp =>
    cases hta : target.apps.find? a with
    | none =>
      have hnil := servicesOf_nil hc (a := a) (fun i => by
        have hi := h i
        rw [view_none hta] at hi
        exact agrees_none hi)
      rw [hca] at hnil
      have hs : currentApp.services = [] := hnil
      simp [containerSteps, planStepsToRemoveApp, hs]
    | some targetApp =>
      show planStepsToUpdateApp shouldRetry currentApp targetApp = []
      apply List.flatMap_eq_nil_iff.mpr
      intro i _
      rw [mapGet_eq (hc a currentApp hca), mapGet_eq (ht a targetApp hta),
        ← view_eq hca, ← view_eq hta]
      exact serviceSteps_agrees shouldRetry _ _ i (h i)

theorem mem_namesOf {s : DeviceState} (hd : Distinct s) (f : ContainerService → List String)
    (a : ℕ) (n : String) :
    n ∈ namesOf f (s.apps.find? a) ↔ ∃ i, ∃ service, view s a i = some service ∧ n ∈ f service := by
  unfold namesOf
  rw [List.mem_eraseDups, List.mem_flatMap]
  cases hf : s.apps.find? a with
  | none => simp [servicesOf, view_none hf]
  | some app =>
    constructor
    · intro h
      obtain ⟨service,hs,hn⟩ := h
      refine ⟨service.serviceId,service,?_,hn⟩
      rw [view_eq hf]
      exact findService_of_mem (hd a app hf) hs
    · intro h
      obtain ⟨i,service,hv,hn⟩ := h
      rw [view_eq hf] at hv
      exact ⟨service,findService_mem hv,hn⟩

theorem namesOf_agrees {current target : DeviceState} (hc : Distinct current)
    (ht : Distinct target) {a : ℕ} (h : ∀ i, Agrees (view current a i) (view target a i))
    (f : ContainerService → List String)
    (hf : ∀ c t, Agrees (some c) (some t) → (f c).Perm (f t)) (n : String) :
    n ∈ namesOf f (current.apps.find? a) ↔ n ∈ namesOf f (target.apps.find? a) := by
  rw [mem_namesOf hc, mem_namesOf ht]
  apply exists_congr
  intro i
  have hi := h i
  cases hcv : view current a i with
  | none =>
    rw [hcv] at hi
    rw [eq_none_of_agrees hi]
  | some c =>
    cases htv : view target a i with
    | none =>
      rw [hcv, htv] at hi
      exact hi.elim
    | some t =>
      rw [hcv, htv] at hi
      have hmem := (hf c t hi).mem_iff (a := n)
      simp [hmem]

theorem reconcileNames_nil {f : ContainerService → List String} {create remove : String → Step}
    {current target : Option DeviceApp}
    (h : ∀ n, n ∈ namesOf f current ↔ n ∈ namesOf f target) :
    reconcileNamesForApp f create remove current target = [] := by
  unfold reconcileNamesForApp
  have hcreate : (namesOf f target).filter (fun n => n ∉ namesOf f current) = [] := by
    rw [List.filter_eq_nil_iff]
    intro n hn
    simpa using (h n).mpr hn
  have hremove : (namesOf f current).filter (fun n => n ∉ namesOf f target) = [] := by
    rw [List.filter_eq_nil_iff]
    intro n hn
    simpa using (h n).mp hn
  rw [hcreate, hremove]
  rfl

theorem calculateSteps_agrees (shouldRetry : String → Bool) {current target : DeviceState}
    (hc : Distinct current) (ht : Distinct target)
    (h : ∀ a i, Agrees (view current a i) (view target a i)) :
    calculateSteps shouldRetry current target = [] := by
  apply List.flatMap_eq_nil_iff.mpr
  intro a _
  have hn := namesOf_agrees hc ht (h a) networksOf (fun c t hct => hct.2.2.1)
  have hv := namesOf_agrees hc ht (h a) namedVolumesOf (fun c t hct => hct.2.2.2)
  unfold appSteps reconcileVolumesForApp reconcileNetworksForApp
  rw [reconcileNames_nil hn, reconcileNames_nil hv, containerSteps_agrees shouldRetry hc ht (h a)]
  rfl

/-- One pass with every call succeeding leaves nothing to plan, whatever
the retry manager says afterwards. -/
theorem reconciliation_converges (shouldRetry shouldRetry' : String → Bool)
    (hretry : ∀ key, shouldRetry key = true) (replies : ℕ → Reply)
    (hs : ∀ n, (replies n).Succeeds) (current target : DeviceState)
    (hc : RunningCurrent current) (ht : RunningTarget target) :
    calculateSteps shouldRetry' (applyTargetState shouldRetry replies current target) target =
      [] := by
  have hpass := applyTargetState_view shouldRetry hs hc.distinct ht.distinct
  apply calculateSteps_agrees shouldRetry' hpass.1 ht.distinct
  intro a i
  obtain ⟨id,_,hview⟩ := hpass.2 a i
  rw [hview]
  apply settled_agrees
  · intro key
    unfold retryFor
    split
    · exact hretry key
    · rfl
  · intro c hcv
    exact ⟨hc.plain_view hcv,hc.created_view hcv⟩
  · intro t htv
    exact ht.plain_view htv

theorem distinct_of_items {s : DeviceState}
    (h : ∀ app ∈ s.apps.items, (app.services.map ContainerService.serviceId).Nodup) :
    Distinct s := by
  intro a app hf
  exact h app (List.mem_of_find?_eq_some hf)

def sampleReply : Reply := ⟨true,.ok (),.ok "f00d",.ok ()⟩

theorem sampleReply_succeeds : sampleReply.Succeeds := ⟨rfl,rfl,by decide,rfl⟩

def runningDevice : DeviceState where
  apps := ⟨[⟨1,"shop",none,
    [{ serviceId := 1, serviceName := "web", imageName := "web:1", appId := 1, appName := "shop",
       containerId := some "aa", status := some "running" },
     { serviceId := 2, serviceName := "job", imageName := "job:1", appId := 1, appName := "shop",
       containerId := some "bb", status := some "running" }]⟩],by simp⟩

def networkedTarget : DeviceState where
  apps := ⟨[⟨1,"shop",none,
    [{ serviceId := 1, serviceName := "web", imageName := "web:2", appId := 1, appName := "shop",
       config := { networks := some ["front"] } }]⟩],by simp⟩

theorem reconciliation_converges_networked :
    calculateSteps (fun _ => true) runningDevice networkedTarget ≠ [] ∧
      calculateSteps (fun _ => true)
        (applyTargetState (fun _ => true) (fun _ => sampleReply) runningDevice networkedTarget)
        networkedTarget = [] := by
  constructor
  · decide
  · apply reconciliation_converges _ _ (fun _ => rfl) _ (fun _ => sampleReply_succeeds)
    · refine ⟨⟨distinct_of_items ?_,?_⟩,?_⟩
      · decide
      · unfold Plain
        decide
      · decide
    · refine ⟨distinct_of_items ?_,?_⟩
      · decide
      · unfold Plain
        decide

end Iotistica.ContainerConvergence
