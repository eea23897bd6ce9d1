import Iotistica.ContainerEntries
import Iotistica.ContainerCells

/-!
# The order of a plan

The containers of one app while its steps are carried out: those the
current state names, and those the steps create. A restart creates its
container from the entry the executor finds, an update from the target. A
service whose state changes keeps its container and with it the resources
the container was created with, also those the target no longer names.
-/

set_option autoImplicit false

namespace Iotistica.ContainerResources
open Iotistica Iotistica.GuardedRun Iotistica.CellRun Iotistica.ContainerState
  Iotistica.ContainerPlanner Iotistica.ContainerExecutor Iotistica.ContainerEntries
  Iotistica.ContainerCells

inductive Resource where
  | network
  | volume

def uses : Resource → ContainerService → List String
  | .network => networksOf
  | .volume => namedVolumesOf

def createStep : Resource → ℕ → String → Step
  | .network => .createNetwork
  | .volume => .createVolume

def removeStep : Resource → ℕ → String → Step
  | .network => .removeNetwork
  | .volume => .removeVolume

def appOf : Step → Option ℕ
  | .downloadImage a _ => some a
  | .createVolume a _ => some a
  | .createNetwork a _ => some a
  | .stopContainer a _ _ => some a
  | .pauseContainer a _ _ => some a
  | .unpauseContainer a _ _ => some a
  | .startStoppedContainer a _ _ => some a
  | .removeContainer a _ _ => some a
  | .startContainer a _ => some a
  | .removeNetwork a _ => some a
  | .removeVolume a _ => some a
  | .noop => none

/-- `existing` by container id. A later step can only name a container the
plan knew, so the created ones need no id. -/
structure Containers where
  existing : List (String × ContainerService)
  created : List ContainerService

def Containers.services (d : Containers) : List ContainerService :=
  d.existing.map Prod.snd++d.created

def containersOf (services : List ContainerService) : Containers where
  existing := services.filterMap (fun svc => (container svc).map (fun id => (id,svc)))
  created := []

def Containers.drop (d : Containers) (id : String) : Containers :=
  { d with existing := d.existing.filter (fun p => p.1 != id) }

def Containers.add (d : Containers) (svc : ContainerService) : Containers :=
  { d with created := d.created++[svc] }

/-- What a successful step does to the containers; `look` finds the entry of
a service. -/
def dockerStep (look : ℕ → ℕ → Option ContainerService) (d : Containers) : Step → Containers
  | .removeContainer _ _ id => d.drop id
  | .startStoppedContainer a i id =>
    match look a i with
    | none => d
    | some svc => (d.drop id).add svc
  | .startContainer _ svc => d.add svc
  | _ => d

def perform (w : DeviceState × Containers) (x : Attempt) : DeviceState × Containers :=
  (advance w.1 x,dockerStep (getServiceFromCurrentState w.1) w.2 x.1)

/-- Each restart finds the entry its service has in the state `s₀`. -/
def Finds (s₀ : DeviceState) (s : DeviceState) : Attempt → Prop
  | (.startStoppedContainer a i _,_) => view s a i = view s₀ a i
  | (_,_) => True

theorem perform_finds {s₀ s : DeviceState} {d : Containers} {x : Attempt} (h : Finds s₀ s x) :
    perform (s,d) x = (advance s x,dockerStep (view s₀) d x.1) := by
  obtain ⟨st,r⟩ := x
  cases st with
  | startStoppedContainer a i id =>
    have hv : getServiceFromCurrentState s a i = view s₀ a i := h
    simp only [perform, dockerStep, hv]
  | _ => rfl

theorem run_perform (s₀ : DeviceState) (attempts : List Attempt) (s : DeviceState)
    (d : Containers) (h : Meets advance (Finds s₀) attempts s) :
    (run perform attempts (s,d)).2 = run (dockerStep (view s₀)) (attempts.map Prod.fst) d := by
  induction attempts generalizing s d with
  | nil => rfl
  | cons x attempts ih =>
    rw [run_cons, perform_finds h.1, ih _ _ h.2]
    rfl

/-- The container ids a step takes away, given that a restart finds its
entry. -/
def dropsId (look : ℕ → ℕ → Option ContainerService) (id : String) : Step → Prop
  | .removeContainer _ _ id' => id' = id
  | .startStoppedContainer a i id' => id' = id ∧ (look a i).isSome
  | _ => False

def creates (look : ℕ → ℕ → Option ContainerService) (svc : ContainerService) : Step → Prop
  | .startStoppedContainer a i _ => look a i = some svc
  | .startContainer _ svc' => svc = svc'
  | _ => False

theorem existing_dockerStep (look : ℕ → ℕ → Option ContainerService) (d : Containers) (st : Step)
    (p : String × ContainerService) :
    p ∈ (dockerStep look d st).existing ↔ p ∈ d.existing ∧ ¬dropsId look p.1 st := by
  cases st with
  | removeContainer a i id =>
    simp only [dockerStep, dropsId]
    rw [eq_comm (a := id)]
    simp [Containers.drop]
  | startStoppedContainer a i id =>
    simp only [dockerStep, dropsId]
    rw [eq_comm (a := id)]
    cases look a i with
    | none => simp
    | some svc => simp [Containers.drop, Containers.add]
  | startContainer a svc => simp [dockerStep, Containers.add, dropsId]
  | _ => simp [dockerStep, dropsId]

theorem created_dockerStep (look : ℕ → ℕ → Option ContainerService) (d : Containers) (st : Step)
    (svc : ContainerService) :
    svc ∈ (dockerStep look d st).created ↔ svc ∈ d.created ∨ creates look svc st := by
  cases st with
  | removeContainer a i id => simp [dockerStep, Containers.drop, creates]
  | startStoppedContainer a i id =>
    simp only [dockerStep, creates]
    cases look a i with
    | none => simp
    | some svc' =>
      rw [Option.some.injEq, eq_comm (a := svc')]
      simp [Containers.drop, Containers.add]
  | startContainer a svc' => simp [dockerStep, Containers.add, creates]
  | _ => simp [dockerStep, creates]

theorem existing_run (look : ℕ → ℕ → Option ContainerService) (steps : List Step)
    (d : Containers) (p : String × ContainerService) :
    p ∈ (run (dockerStep look) steps d).existing ↔
      p ∈ d.existing ∧ ∀ st ∈ steps, ¬dropsId look p.1 st := by
  induction steps generalizing d with
  | nil => simp
  | cons st steps ih =>
    rw [run_cons, ih, existing_dockerStep, List.forall_mem_cons, and_assoc]

theorem created_run (look : ℕ → ℕ → Option ContainerService) (steps : List Step)
    (d : Containers) (svc : ContainerService) :
    svc ∈ (run (dockerStep look) steps d).created ↔
      svc ∈ d.created ∨ ∃ st ∈ steps, creates look svc st := by
  induction steps generalizing d with
  | nil => simp
  | cons st steps ih =>
    rw [run_cons, ih, created_dockerStep, List.exists_mem_cons_iff, or_assoc]

theorem mem_services_run (look : ℕ → ℕ → Option ContainerService) (steps : List Step)
    (services : List ContainerService) (svc : ContainerService) :
    svc ∈ (run (dockerStep look) steps (containersOf services)).services ↔
      (svc ∈ services ∧ ∃ id, container svc = some id ∧ ∀ st ∈ steps, ¬dropsId look id st) ∨
        ∃ st ∈ steps, creates look svc st := by
  unfold Containers.services
  rw [List.mem_append, created_run, List.mem_map]
  apply or_congr
  · constructor
    · rintro ⟨⟨id,svc'⟩,hp,rfl⟩
      have hp' := (existing_run look steps _ _).mp hp
      have hin := List.mem_filterMap.mp hp'.1
      obtain ⟨svc'',hmem,heq⟩ := hin
      cases hc : container svc'' with
      | none => simp [hc] at heq
      | some id' =>
        simp only [hc, Option.map_some, Option.some.injEq, Prod.mk.injEq] at heq
        obtain ⟨rfl,rfl⟩ := heq
        exact ⟨hmem,id',hc,hp'.2⟩
    · rintro ⟨hmem,id,hc,hkept⟩
      refine ⟨(id,svc),(existing_run look steps _ _).mpr ⟨?_,hkept⟩,rfl⟩
      exact List.mem_filterMap.mpr ⟨svc,hmem,by simp [hc]⟩
  · simp [containersOf]

def acting (st : Step) : Bool := st.subject.isSome

theorem perform_idle (w : DeviceState × Containers) (x : Attempt) (h : acting x.1 = false) :
    perform w x = w := by
  obtain ⟨st,r⟩ := x
  have hs : subjectOf (st,r) = none := by simpa [acting, subjectOf] using h
  have hd : ∀ look d, dockerStep look d st = d := by
    intro look d
    cases st with
    | removeContainer a i id => cases hs
    | startStoppedContainer a i id => cases hs
    | startContainer a svc => cases hs
    | _ => rfl
  unfold perform
  rw [advance_idle w.1 _ hs]
  exact Prod.ext rfl (hd _ _)

theorem run_perform_acting (attempts : List Attempt) (w : DeviceState × Containers) :
    run perform attempts w = run perform (attempts.filter (fun x => acting x.1)) w := by
  induction attempts generalizing w with
  | nil => rfl
  | cons x attempts ih =>
    cases hx : acting x.1 with
    | false =>
      rw [run_cons, perform_idle w x hx, List.filter_cons, if_neg (by simp [hx])]
      exact ih w
    | true =>
      rw [run_cons, List.filter_cons, if_pos hx, run_cons]
      exact ih _

end Iotistica.ContainerResources

namespace Iotistica.ContainerOrdering
open Iotistica Iotistica.GuardedRun Iotistica.CellRun Iotistica.ContainerState
  Iotistica.ContainerPlanner Iotistica.ContainerExecutor Iotistica.ContainerEntries
  Iotistica.ContainerCells Iotistica.ContainerResources

def ofApp (a : ℕ) (st : Step) : Bool := appOf st == some a

def remaining (current : DeviceState) (a : ℕ) (attempts : List Attempt) :
    List ContainerService :=
  (run perform attempts
    (current,containersOf (servicesOf (current.apps.find? a)))).2.services

/-- No step removes a resource that a container of the app still uses after
the app's preceding steps, and a container is started after the creation of
what it needs and no service of the app names yet. -/
structure OrderedPlan (current : DeviceState) (plan : List Step) : Prop where
  removal : ∀ kind a n pre post, plan = pre++removeStep kind a n::post →
    ∀ attempts : List Attempt, attempts.map Prod.fst = pre.filter (ofApp a) →
      (∀ x ∈ attempts, x.2.Succeeds) →
        ∀ svc ∈ remaining current a attempts, n ∉ uses kind svc
  creation : ∀ a svc pre post, plan = pre++Step.startContainer a svc::post →
    ∀ kind, ∀ n ∈ uses kind svc,
      n ∈ namesOf (uses kind) (current.apps.find? a) ∨ createStep kind a n ∈ pre

/-- The container of a service in both states is replaced: by an update, or
by the restart of a stopped one. -/
def Replaced (c t : ContainerService) : Prop :=
  if desiredState c = desiredState t then needsUpdate c t = true else desiredState c = .stopped

def Vacated (current target : DeviceApp) (id : String) : Prop :=
  ∃ i c, mapGet current.services i = some c ∧ container c = some id ∧
    ∀ t ∈ mapGet target.services i, Replaced c t

def Restarted (current target : DeviceApp) (svc : ContainerService) : Prop :=
  ∃ i c t, mapGet current.services i = some c ∧ mapGet target.services i = some t ∧
    (container c).isSome ∧ desiredState c = .stopped ∧ desiredState t ≠ .stopped ∧
    findService current.services i = some svc

/-- The service has a container after the plan that was not created from
the target. -/
def Outlives (current target : DeviceApp) (svc : ContainerService) : Prop :=
  (svc ∈ current.services ∧ ∃ id, container svc = some id ∧ ¬Vacated current target id) ∨
    Restarted current target svc

section Lists
variable {α : Type*}

theorem split_after {xs ys pre post : List α} {x : α} (h : xs++ys = pre++x::post)
    (hx : x ∉ xs) : ∃ rest, pre = xs++rest ∧ ys = rest++x::post := by
  induction xs generalizing pre with
  | nil => exact ⟨pre,rfl,h⟩
  | cons y xs ih =>
    cases pre with
    | nil =>
      have hy : y = x := (List.cons.inj h).1
      exact absurd (by simp [hy]) hx
    | cons z pre =>
      obtain ⟨rfl,hrest⟩ := List.cons.inj h
      obtain ⟨rest,rfl,hys⟩ := ih hrest (fun hmem => hx (List.mem_cons_of_mem y hmem))
      exact ⟨rest,rfl,hys⟩

theorem split_of_filter {p : α → Bool} {xs pre post : List α} {x : α}
    (h : xs.filter p = pre++x::post) :
    ∃ pre' post', xs = pre'++x::post' ∧ pre'.filter p = pre := by
  obtain ⟨as,bs,rfl,hpre,hrest⟩ := List.filter_eq_append_iff.mp h
  obtain ⟨cs,ds,rfl,hnone,_,_⟩ := List.filter_eq_cons_iff.mp hrest
  refine ⟨as++cs,ds,by simp,?_⟩
  rw [List.filter_append, hpre, List.filter_eq_nil_iff.mpr hnone, List.append_nil]

end Lists

def OfContainer (a : ℕ) (st : Step) : Prop :=
  appOf st = some a ∧ st.isCreate = false ∧ st.isRemove = false

theorem removeSteps_ofContainer (a i : ℕ) (service : ContainerService) :
    ∀ st ∈ removeSteps a i service, OfContainer a st := by
  unfold removeSteps OfContainer
  cases container service <;> simp [appOf, Step.isCreate, Step.isRemove]

theorem addSteps_ofContainer (a : ℕ) (service : ContainerService) :
    ∀ st ∈ addSteps a service, OfContainer a st := by
  unfold addSteps OfContainer
  split <;> simp [appOf, Step.isCreate, Step.isRemove]

theorem serviceSteps_ofContainer (shouldRetry : String → Bool) (a i : ℕ)
    (current target : Option ContainerService) :
    ∀ st ∈ serviceSteps shouldRetry a a i current target, OfContainer a st := by
  cases current with
  | none =>
    cases target with
    | none => simp [serviceSteps]
    | some t =>
      simp only [serviceSteps]
      split
      · exact addSteps_ofContainer a t
      · simp
  | some c =>
    cases target with
    | none => exact removeSteps_ofContainer a i c
    | some t =>
      simp only [serviceSteps]
      cases container c with
      | none => simp
      | some id =>
        simp only [OfContainer]
        split
        · unfold updateSteps
          cases needsUpdate c t <;> cases imageChanged c t <;>
            simp [appOf, Step.isCreate, Step.isRemove]
        · cases desiredState c <;> cases desiredState t <;>
            simp [transitionSteps, appOf, Step.isCreate, Step.isRemove]

theorem containerSteps_ofContainer (shouldRetry : String → Bool) {current target : DeviceState}
    (a : ℕ) :
    ∀ st ∈ containerSteps shouldRetry (current.apps.find? a) (target.apps.find? a),
      OfContainer a st := by
  intro st hst
  cases hca : current.apps.find? a with
  | none =>
    cases hta : target.apps.find? a with
    | none =>
      rw [hca, hta] at hst
      cases hst
    | some targetApp =>
      rw [hca, hta] at hst
      obtain ⟨svc,_,hsvc⟩ := List.mem_flatMap.mp hst
      rw [mem_find? hta] at hsvc
      exact addSteps_ofContainer a svc st hsvc
  | some currentApp =>
    cases hta : target.apps.find? a with
    | none =>
      rw [hca, hta] at hst
      obtain ⟨svc,_,hsvc⟩ := List.mem_flatMap.mp hst
      rw [mem_find? hca] at hsvc
      exact removeSteps_ofContainer a svc.serviceId svc st hsvc
    | some targetApp =>
      rw [hca, hta] at hst
      obtain ⟨i,_,hi⟩ := List.mem_flatMap.mp hst
      rw [mem_find? hca, mem_find? hta] at hi
      exact serviceSteps_ofContainer shouldRetry a i _ _ st hi

def reconcile (kind : Resource) (a : ℕ) (currentApp targetApp : Option DeviceApp) : List Step :=
  reconcileNamesForApp (uses kind) (createStep kind a) (removeStep kind a) currentApp targetApp

theorem mem_reconcile {kind : Resource} {a : ℕ} {currentApp targetApp : Option DeviceApp}
    {st : Step} (h : st ∈ reconcile kind a currentApp targetApp) :
    ∃ n, st = createStep kind a n ∨ st = removeStep kind a n := by
  unfold reconcile reconcileNamesForApp at h
  rcases List.mem_append.mp h with h | h
  · obtain ⟨n,_,rfl⟩ := List.mem_map.mp h
    exact ⟨n,Or.inl rfl⟩
  · obtain ⟨n,_,rfl⟩ := List.mem_map.mp h
    exact ⟨n,Or.inr rfl⟩

@[simp] theorem appOf_createStep (kind : Resource) (a : ℕ) (n : String) :
    appOf (createStep kind a n) = some a := by
  cases kind <;> rfl

@[simp] theorem appOf_removeStep (kind : Resource) (a : ℕ) (n : String) :
    appOf (removeStep kind a n) = some a := by
  cases kind <;> rfl

@[simp] theorem acting_createStep (kind : Resource) (a : ℕ) (n : String) :
    acting (createStep kind a n) = false := by
  cases kind <;> rfl

@[simp] theorem acting_removeStep (kind : Resource) (a : ℕ) (n : String) :
    acting (removeStep kind a n) = false := by
  cases kind <;> rfl

theorem appSteps_eq (shouldRetry : String → Bool) (a : ℕ)
    (currentApp targetApp : Option DeviceApp) :
    appSteps shouldRetry a currentApp targetApp =
      (reconcile .volume a currentApp targetApp).filter Step.isCreate++
      (reconcile .network a currentApp targetApp).filter Step.isCreate++
      containerSteps shouldRetry currentApp targetApp++
      (reconcile .network a currentApp targetApp).filter Step.isRemove++
      (reconcile .volume a currentApp targetApp).filter Step.isRemove := rfl

theorem reconcile_app {kind : Resource} {a : ℕ} {currentApp targetApp : Option DeviceApp}
    {st : Step} (h : st ∈ reconcile kind a currentApp targetApp) : appOf st = some a := by
  obtain ⟨n,rfl | rfl⟩ := mem_reconcile h
  · simp
  · simp

theorem appSteps_app (shouldRetry : String → Bool) (current target : DeviceState) (a : ℕ) :
    ∀ st ∈ appSteps shouldRetry a (current.apps.find? a) (target.apps.find? a),
      appOf st = some a := by
  intro st hst
  simp only [appSteps_eq, List.mem_append, List.mem_filter] at hst
  rcases hst with (((h | h) | h) | h) | h
  · exact reconcile_app h.1
  · exact reconcile_app h.1
  · exact (containerSteps_ofContainer shouldRetry a st h).1
  · exact reconcile_app h.1
  · exact reconcile_app h.1

theorem filter_calculateSteps_app (shouldRetry : String → Bool) (current target : DeviceState)
    (a : ℕ) :
    (calculateSteps shouldRetry current target).filter (ofApp a) =
      appSteps shouldRetry a (current.apps.find? a) (target.apps.find? a) := by
  rw [filter_calculateSteps_of_app shouldRetry current target a]
  · apply List.filter_eq_self.mpr
    intro st hst
    simp [ofApp, appSteps_app shouldRetry current target a st hst]
  · intro b hb
    apply List.filter_eq_nil_iff.mpr
    intro st hst
    simp [ofApp, appSteps_app shouldRetry current target b st hst, hb]

end Iotistica.ContainerOrdering
