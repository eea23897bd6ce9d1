import Iotistica.ContainerConvergence

/-!
# Reconciling stopped and paused services

A change of state takes its own steps and skips the comparison of the
configurations. Restarting a stopped container files a copy of its old
entry, which still says `stopped`; and a difference of image, configuration
or status is met only by the pass after the change. The last theorem says
exactly when one pass is enough.
-/

set_option autoImplicit false

namespace Iotistica.ContainerLifecycle
open Iotistica Iotistica.CellRun Iotistica.ContainerState Iotistica.ContainerPlanner
  Iotistica.ContainerExecutor Iotistica.ContainerCells Iotistica.ContainerSettling
  Iotistica.ContainerComparison
  Iotistica.ContainerConvergence

/-- Every service of both states has the state its target asks for, and the
next plan leaves alone the containers of the services whose state differed. -/
structure LifecycleSettled (shouldRetry : String → Bool) (current target after : DeviceState) :
    Prop where
  reached : ∀ a i c t, view current a i = some c → view target a i = some t →
    (view after a i).map desiredState = some (desiredState t)
  quiet : ∀ a i c t, view current a i = some c → view target a i = some t →
    desiredState c ≠ desiredState t →
      LeavesAlone (calculateSteps shouldRetry after target) a i

/-- A change of state the planner carries out in one pass: no stopped
container is to run, image and configuration agree, and the container has
not exited unless the change creates it anew. -/
def OnePass (c t : ContainerService) : Prop :=
  ¬(desiredState c = .stopped ∧ desiredState t = .running) ∧
    imageChanged c t = false ∧ configChanged c.config t.config = false ∧
    (desiredState c = .stopped ∨ containerStopped c = false)

theorem moved_state (id : String) (c : ContainerService) (y : Lifecycle)
    (hne : desiredState c ≠ y) :
    desiredState (moved id c y) = y ↔ ¬(desiredState c = .stopped ∧ y = .running) := by
  unfold moved
  cases hx : desiredState c with
  | stopped =>
    rw [hx] at hne
    cases y with
    | running =>
      have hs : desiredState (started c id) = .stopped := hx
      simp [hs]
    | paused => simp [desiredState, setState]
    | stopped => exact absurd rfl hne
  | running => simp [desiredState, setState]
  | paused => simp [desiredState, setState]

theorem container_started (c : ContainerService) {id : String} (hid : id ≠ "") :
    (container (started c id)).isSome := by
  simp [container, started, hid]

theorem moved_container {id : String} (hid : id ≠ "") (c : ContainerService) (y : Lifecycle)
    (hc : (container c).isSome) : (container (moved id c y)).isSome := by
  unfold moved
  split
  · exact container_started c hid
  · exact container_started c hid
  · exact hc

theorem moved_imageName (id : String) (c : ContainerService) (y : Lifecycle) :
    (moved id c y).imageName = c.imageName := by
  unfold moved
  split <;> rfl

theorem moved_config (id : String) (c : ContainerService) (y : Lifecycle) :
    (moved id c y).config = c.config := by
  unfold moved
  split <;> rfl

theorem moved_containerStopped (id : String) (c : ContainerService) (y : Lifecycle)
    (hne : desiredState c ≠ y) :
    containerStopped (moved id c y) = false ↔
      desiredState c = .stopped ∨ containerStopped c = false := by
  unfold moved
  cases hx : desiredState c with
  | stopped =>
    rw [hx] at hne
    cases y with
    | running => simp [containerStopped_running (started c id) rfl]
    | paused => simp [containerStopped_running (setState .paused (started c id)) rfl]
    | stopped => exact absurd rfl hne
  | running =>
    show containerStopped c = false ↔ _
    simp
  | paused =>
    show containerStopped c = false ↔ _
    simp

theorem moved_needsUpdate (id : String) (c t : ContainerService) (y : Lifecycle)
    (hne : desiredState c ≠ y) :
    needsUpdate (moved id c y) t = false ↔
      imageChanged c t = false ∧ configChanged c.config t.config = false ∧
        (desiredState c = .stopped ∨ containerStopped c = false) := by
  unfold needsUpdate imageChanged
  rw [moved_imageName, moved_config]
  simp only [Bool.or_eq_false_iff, and_assoc, moved_containerStopped id c y hne]

theorem settled_both {shouldRetry : String → Bool} {id : String} {c t : ContainerService}
    (hc : (container c).isSome) :
    settled shouldRetry id (some c) (some t) =
      if desiredState c = desiredState t then
        if needsUpdate c t then some (started t id) else some c
      else some (moved id c (desiredState t)) := by
  simp [settled, hc]

/-- One service: it has its state and is left alone exactly if its change
takes one pass. -/
theorem service_settled_iff (shouldRetry : String → Bool) {id : String} (hid : id ≠ "")
    (a i : ℕ) {c t : ContainerService} (hc : (container c).isSome)
    (hne : desiredState c ≠ desiredState t) :
    (desiredState (moved id c (desiredState t)) = desiredState t ∧
      serviceOps shouldRetry a i (some (moved id c (desiredState t))) (some t) = []) ↔
      OnePass c t := by
  unfold OnePass
  rw [← moved_state id c _ hne, ← moved_needsUpdate id c t _ hne]
  apply and_congr_right
  intro he
  exact serviceOps_quiet_iff shouldRetry a i (moved_container hid c _ hc) he

theorem lifecycle_settled_iff (shouldRetry shouldRetry' : String → Bool) (replies : ℕ → Reply)
    (hs : ∀ n, (replies n).Succeeds) (current target : DeviceState) (hc : Distinct current)
    (ht : Distinct target)
    (hcreated : ∀ app ∈ current.apps.items, ∀ service ∈ app.services, (container service).isSome) :
    LifecycleSettled shouldRetry' current target
        (applyTargetState shouldRetry replies current target) ↔
      ∀ a i c t, view current a i = some c → view target a i = some t →
        desiredState c ≠ desiredState t → OnePass c t := by
  have hpass := applyTargetState_view shouldRetry hs hc ht
  have hplan := fun a i => filter_calculateSteps shouldRetry' hpass.1 ht a i
  have hcont : ∀ a i c, view current a i = some c → (container c).isSome := by
    intro a i c hv
    obtain ⟨app,happ,hsvc⟩ := view_mem hv
    exact hcreated app happ c hsvc
  constructor
  · intro h a i c t hcv htv hne
    obtain ⟨id,hid,hview⟩ := hpass.2 a i
    rw [hcv, htv, settled_both (hcont a i c hcv), if_neg hne] at hview
    have hreached := h.reached a i c t hcv htv
    have hquiet := (leavesAlone_iff _ a i).mp (h.quiet a i c t hcv htv hne)
    rw [hplan, hview, htv] at hquiet
    rw [hview] at hreached
    exact (service_settled_iff _ hid a i (hcont a i c hcv) hne).mp
      ⟨Option.some.inj hreached,hquiet⟩
  · intro h
    constructor
    · intro a i c t hcv htv
      obtain ⟨id,hid,hview⟩ := hpass.2 a i
      rw [hcv, htv, settled_both (hcont a i c hcv)] at hview
      rw [hview]
      by_cases he : desiredState c = desiredState t
      · rw [if_pos he]
        split
        · rfl
        · exact congrArg some he
      · rw [if_neg he]
        have hone := h a i c t hcv htv he
        exact congrArg some ((moved_state id c _ he).mpr hone.1)
    · intro a i c t hcv htv hne
      obtain ⟨id,hid,hview⟩ := hpass.2 a i
      rw [hcv, htv, settled_both (hcont a i c hcv), if_neg hne] at hview
      have hone := h a i c t hcv htv hne
      apply (leavesAlone_iff _ a i).mpr
      rw [hplan, hview, htv]
      exact ((service_settled_iff _ hid a i (hcont a i c hcv) hne).mpr hone).2

def deviceWith (state : Option Lifecycle) (containerId status : Option String) : DeviceState where
  apps := ⟨[⟨1,"shop",none,
    [{ serviceId := 1, serviceName := "web", imageName := "web:1", appId := 1, appName := "shop",
       state := state, containerId := containerId, status := status }]⟩],by simp⟩

theorem lifecycle_settled_paused :
    LifecycleSettled (fun _ => true) (deviceWith none (some "aa") (some "running"))
      (deviceWith (some .paused) none none)
      (applyTargetState (fun _ => true) (fun _ => sampleReply)
        (deviceWith none (some "aa") (some "running")) (deviceWith (some .paused) none none)) := by
  rw [lifecycle_settled_iff _ _ _ (fun _ => sampleReply_succeeds) _ _
    (distinct_of_items (by decide)) (distinct_of_items (by decide)) (by decide)]
  intro a i c t hc ht _
  obtain ⟨app,happ,hsvc⟩ := view_mem hc
  obtain ⟨app',happ',hsvc'⟩ := view_mem ht
  simp only [deviceWith, List.mem_singleton] at happ happ'
  subst happ happ'
  simp only [List.mem_singleton] at hsvc hsvc'
  subst hsvc hsvc'
  unfold OnePass
  decide

/-- A stopped container that is to run is restarted by every pass: the
entry filed after the restart still says `stopped`. -/
theorem stopped_service_restarted_by_every_pass :
    (Distinct (deviceWith (some .stopped) (some "aa") (some "exited")) ∧
      Distinct (deviceWith none none none) ∧
      ∀ app ∈ (deviceWith (some .stopped) (some "aa") (some "exited")).apps.items,
        ∀ service ∈ app.services, (container service).isSome) ∧
    ¬LifecycleSettled (fun _ => true) (deviceWith (some .stopped) (some "aa") (some "exited"))
      (deviceWith none none none)
      (applyTargetState (fun _ => true) (fun _ => sampleReply)
        (deviceWith (some .stopped) (some "aa") (some "exited")) (deviceWith none none none)) ∧
    calculateSteps (fun _ => true)
        (applyTargetState (fun _ => true) (fun _ => sampleReply)
          (deviceWith (some .stopped) (some "aa") (some "exited")) (deviceWith none none none))
        (deviceWith none none none) = [.startStoppedContainer 1 1 "f00d"] := by
  refine ⟨⟨distinct_of_items (by decide),distinct_of_items (by decide),by decide⟩,?_,by decide⟩
  intro h
  have hreached := h.reached 1 1 _ _ rfl rfl
  revert hreached
  decide

end Iotistica.ContainerLifecycle
