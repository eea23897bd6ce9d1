import Iotistica.ContainerPlanner

/-!
# Executing a plan

Docker and the retry manager answer each step. A step that fails is only
reported, and the next one is tried. Per service the steps act on one entry
of the current state: `effect` says how, and a run of the executor is
followed service by service.
-/

set_option autoImplicit false

namespace Iotistica.ContainerExecutor
open Iotistica Iotistica.GuardedRun Iotistica.CellRun Iotistica.ContainerState
  Iotistica.ContainerPlanner

/-- What one step hears from outside: whether the retry manager lets an
image be pulled now, the step's Docker call, the call that starts a
container, and the attaching of its logs. -/
structure Reply where
  allowed : Bool
  call : Except String Unit
  start : Except String String
  attach : Except String Unit

def Reply.containerId (r : Reply) : String :=
  match r.start with
  | .ok id => id
  | .error _ => ""

structure Reply.Succeeds (r : Reply) : Prop where
  call : r.call = .ok ()
  start : r.start = .ok r.containerId
  named : r.containerId ≠ ""
  attach : r.attach = .ok ()

abbrev Attempt := Step × Reply

def report (s : DeviceState) : Except String Unit → DeviceState × Option String
  | .ok _ => (s,none)
  | .error e => (s,some e)

def afterCall (r : Reply) (s : DeviceState) (next : DeviceState → DeviceState × Option String) :
    DeviceState × Option String :=
  match r.call with
  | .ok _ => next s
  | .error e => (s,some e)

def startService (r : Reply) (s : DeviceState) (appId : ℕ) (service : ContainerService) :
    DeviceState × Option String :=
  match r.start with
  | .ok id => report (addServiceToCurrentState s appId service id) r.attach
  | .error e => (s,some e)

def executeStep (s : DeviceState) : Attempt → DeviceState × Option String
  | (.downloadImage _ imageName,r) =>
    if r.allowed then report s r.call else (s,some ("Max retries exceeded for "++imageName))
  | (.stopContainer a i _,r) => afterCall r s (fun s => (updateServiceState s a i .stopped,none))
  | (.pauseContainer a i _,r) => afterCall r s (fun s => (updateServiceState s a i .paused,none))
  | (.unpauseContainer a i _,r) => afterCall r s (fun s => (updateServiceState s a i .running,none))
  | (.startStoppedContainer a i _,r) =>
    match getServiceFromCurrentState s a i with
    | none => (s,some ("Service "++toString i++" not found in current state"))
    | some service =>
      afterCall r s (fun s => startService r (removeServiceFromCurrentState s a i) a service)
  | (.removeContainer a i _,r) => afterCall r s (fun s => (removeServiceFromCurrentState s a i,none))
  | (.startContainer a service,r) => startService r s a service
  | (.createNetwork _ _,r) => report s r.call
  | (.removeNetwork _ _,r) => report s r.call
  | (.createVolume _ _,r) => report s r.call
  | (.removeVolume _ _,r) => report s r.call
  | (.noop,_) => (s,none)

def advance (s : DeviceState) (at' : Attempt) : DeviceState := (executeStep s at').1

def executeSteps (s : DeviceState) (attempts : List Attempt) : DeviceState :=
  run advance attempts s

/-- The `n`th step of a plan hears the `n`th reply. -/
def answered (replies : ℕ → Reply) (steps : List Step) : List Attempt :=
  steps.zipIdx.map (fun p => (p.1,replies p.2))

def applyTargetState (shouldRetry : String → Bool) (replies : ℕ → Reply)
    (current target : DeviceState) : DeviceState :=
  executeSteps current (answered replies (calculateSteps shouldRetry current target))

theorem map_fst_answered (replies : ℕ → Reply) (steps : List Step) :
    (answered replies steps).map Prod.fst = steps := by
  simp [answered, Function.comp_def]

theorem mem_answered {replies : ℕ → Reply} {steps : List Step} {x : Attempt}
    (h : x ∈ answered replies steps) : ∃ n, x.2 = replies n := by
  have h' := List.mem_map.mp h
  obtain ⟨p,_,rfl⟩ := h'
  exact ⟨p.2,rfl⟩

def effect (entry : Option ContainerService) : Attempt → Option ContainerService
  | (.stopContainer _ _ _,_) => entry.map (setState .stopped)
  | (.pauseContainer _ _ _,_) => entry.map (setState .paused)
  | (.unpauseContainer _ _ _,_) => entry.map (setState .running)
  | (.startStoppedContainer _ _ _,r) => entry.map (fun service => started service r.containerId)
  | (.removeContainer _ _ _,_) => none
  | (.startContainer _ service,r) => some (started service r.containerId)
  | (_,_) => entry

def Vacant (entry : Option ContainerService) : Attempt → Prop
  | (.startContainer _ _,r) => r.Succeeds ∧ entry = none
  | (_,r) => r.Succeeds

def viewAt (s : DeviceState) (k : ℕ × ℕ) : Option ContainerService := view s k.1 k.2

def subjectOf (x : Attempt) : Option (ℕ × ℕ) := x.1.subject

theorem pair_ne {a i b j : ℕ} (h : (b,j) ≠ (a,i)) : ¬(b = a ∧ j = i) := by
  intro he
  apply h
  rw [he.1, he.2]

theorem advance_update {s : DeviceState} (hd : Distinct s) {x : Attempt} {a i : ℕ}
    {state : Lifecycle} (hx : advance s x = updateServiceState s a i state)
    (he : effect (viewAt s (a,i)) x = (view s a i).map (setState state)) :
    Distinct (advance s x) ∧ viewAt (advance s x) (a,i) = effect (viewAt s (a,i)) x ∧
      ∀ k, k ≠ (a,i) → viewAt (advance s x) k = viewAt s k := by
  rw [hx, he]
  refine ⟨distinct_update hd a i state,?_,?_⟩
  · show view _ a i = _
    rw [view_update]
    simp
  · intro k hk
    show view _ k.1 k.2 = view s k.1 k.2
    rw [view_update, if_neg (pair_ne hk)]

theorem advance_remove {s : DeviceState} (hd : Distinct s) (a i : ℕ) :
    Distinct (removeServiceFromCurrentState s a i) ∧
      view (removeServiceFromCurrentState s a i) a i = none ∧
      ∀ k : ℕ × ℕ, k ≠ (a,i) → viewAt (removeServiceFromCurrentState s a i) k = viewAt s k := by
  refine ⟨distinct_remove hd a i,?_,?_⟩
  · rw [view_remove]
    simp
  · intro k hk
    show view _ k.1 k.2 = view s k.1 k.2
    rw [view_remove, if_neg (pair_ne hk)]

theorem advance_start {s : DeviceState} (hd : Distinct s) {r : Reply} (hr : r.Succeeds) (a : ℕ)
    (service : ContainerService) (hfree : view s a service.serviceId = none) :
    Distinct (startService r s a service).1 ∧
      view (startService r s a service).1 a service.serviceId =
        some (started service r.containerId) ∧
      ∀ k : ℕ × ℕ, k ≠ (a,service.serviceId) →
        viewAt (startService r s a service).1 k = viewAt s k := by
  have hs : (startService r s a service).1 =
      addServiceToCurrentState s a service r.containerId := by
    unfold startService
    rw [hr.start, hr.attach]
    rfl
  rw [hs]
  refine ⟨distinct_add hd a service _ hfree,?_,?_⟩
  · rw [view_add s a service _ hfree]
    simp
  · intro k hk
    show view _ k.1 k.2 = view s k.1 k.2
    rw [view_add s a service _ hfree, if_neg (pair_ne hk)]

theorem afterCall_succeeds {r : Reply} (hr : r.Succeeds) (s : DeviceState)
    (next : DeviceState → DeviceState × Option String) : afterCall r s next = next s := by
  unfold afterCall
  rw [hr.call]

theorem report_state (s : DeviceState) (x : Except String Unit) : (report s x).1 = s := by
  cases x <;> rfl

theorem getService_id {s : DeviceState} {a i : ℕ} {service : ContainerService}
    (h : getServiceFromCurrentState s a i = some service) : service.serviceId = i := by
  unfold getServiceFromCurrentState at h
  cases hf : s.apps.find? a with
  | none => simp [hf] at h
  | some app =>
    rw [hf] at h
    exact findService_id h

theorem advance_restart {s : DeviceState} (hd : Distinct s) {r : Reply} (hr : r.Succeeds)
    (a i : ℕ) (id : String) :
    Distinct (advance s (.startStoppedContainer a i id,r)) ∧
      view (advance s (.startStoppedContainer a i id,r)) a i =
        (view s a i).map (fun service => started service r.containerId) ∧
      ∀ k : ℕ × ℕ, k ≠ (a,i) →
        viewAt (advance s (.startStoppedContainer a i id,r)) k = viewAt s k := by
  cases hg : getServiceFromCurrentState s a i with
  | none =>
    have hv : view s a i = none := hg
    have he : advance s (.startStoppedContainer a i id,r) = s := by
      simp [advance, executeStep, hg]
    rw [he, hv]
    exact ⟨hd,rfl,fun k hk => rfl⟩
  | some service =>
    have he : advance s (.startStoppedContainer a i id,r) =
        (startService r (removeServiceFromCurrentState s a i) a service).1 := by
      simp [advance, executeStep, hg, afterCall_succeeds hr]
    have hv : view s a i = some service := hg
    have hid := getService_id hg
    have hrem := advance_remove hd a i
    have hfree : view (removeServiceFromCurrentState s a i) a service.serviceId = none := by
      rw [hid]
      exact hrem.2.1
    have hst := advance_start hrem.1 hr a service hfree
    rw [hid] at hst
    rw [he]
    refine ⟨hst.1,?_,?_⟩
    · rw [hst.2.1, hv]
      rfl
    · intro k hk
      rw [hst.2.2 k hk, hrem.2.2 k hk]

theorem advance_idle (s : DeviceState) (x : Attempt) (h : subjectOf x = none) :
    advance s x = s := by
  obtain ⟨st,r⟩ := x
  cases st with
  | downloadImage a n =>
    show (if r.allowed then report s r.call else (s,some _)).1 = s
    split
    · exact report_state s r.call
    · rfl
  | createVolume a n => exact report_state s r.call
  | createNetwork a n => exact report_state s r.call
  | removeNetwork a n => exact report_state s r.call
  | removeVolume a n => exact report_state s r.call
  | noop => rfl
  | stopContainer a i id => cases h
  | pauseContainer a i id => cases h
  | unpauseContainer a i id => cases h
  | startStoppedContainer a i id => cases h
  | removeContainer a i id => cases h
  | startContainer a service => cases h

theorem advance_named (s : DeviceState) (x : Attempt) (k : ℕ × ℕ) (hd : Distinct s)
    (hk : subjectOf x = some k) (hv : Vacant (viewAt s k) x) :
    Distinct (advance s x) ∧ viewAt (advance s x) k = effect (viewAt s k) x ∧
      ∀ j, j ≠ k → viewAt (advance s x) j = viewAt s j := by
  obtain ⟨st,r⟩ := x
  cases st with
  | stopContainer a i id =>
    obtain rfl : (a,i) = k := Option.some.inj hk
    exact advance_update hd (congrArg Prod.fst (afterCall_succeeds hv s _)) rfl
  | pauseContainer a i id =>
    obtain rfl : (a,i) = k := Option.some.inj hk
    exact advance_update hd (congrArg Prod.fst (afterCall_succeeds hv s _)) rfl
  | unpauseContainer a i id =>
    obtain rfl : (a,i) = k := Option.some.inj hk
    exact advance_update hd (congrArg Prod.fst (afterCall_succeeds hv s _)) rfl
  | removeContainer a i id =>
    obtain rfl : (a,i) = k := Option.some.inj hk
    have he : advance s (.removeContainer a i id,r) = removeServiceFromCurrentState s a i :=
      congrArg Prod.fst (afterCall_succeeds hv s _)
    rw [he]
    exact advance_remove hd a i
  | startStoppedContainer a i id =>
    obtain rfl : (a,i) = k := Option.some.inj hk
    exact advance_restart hd hv a i id
  | startContainer a service =>
    obtain rfl : (a,service.serviceId) = k := Option.some.inj hk
    exact advance_start hd hv.1 a service hv.2
  | downloadImage a n => cases hk
  | createVolume a n => cases hk
  | createNetwork a n => cases hk
  | removeNetwork a n => cases hk
  | removeVolume a n => cases hk
  | noop => cases hk

theorem advance_simulates : Simulates advance viewAt subjectOf effect Vacant Distinct where
  idle s x hd h := by
    rw [advance_idle s x h]
    exact ⟨hd,fun k => rfl⟩
  named s x k hd hk hv := advance_named s x k hd hk hv

theorem executeSteps_view (attempts : List Attempt) (s : DeviceState) (hd : Distinct s)
    (hok : ∀ k, Meets effect Vacant (attempts.filter (ofCell subjectOf k)) (viewAt s k)) :
    Distinct (executeSteps s attempts) ∧
      ∀ k, viewAt (executeSteps s attempts) k =
        run effect (attempts.filter (ofCell subjectOf k)) (viewAt s k) :=
  run_cells advance_simulates attempts s hd hok

end Iotistica.ContainerExecutor
