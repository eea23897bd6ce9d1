import Iotistica.ContainerEntries
import Iotistica.ContainerCells

/-!
# Bookkeeping when steps fail

A pass goes on after a failed step, so a service that is to be created anew
may be started although its old container could not be removed. The old
entry is then still there when the new one is filed. What a pass needs for
a well-formed state is said on the answers to its steps.
-/

set_option autoImplicit false

namespace Iotistica.ContainerFailures
open Iotistica Iotistica.GuardedRun Iotistica.CellRun Iotistica.ContainerState
  Iotistica.ContainerPlanner Iotistica.ContainerExecutor Iotistica.ContainerEntries
  Iotistica.ContainerCells

def NoEmptyApp (s : DeviceState) : Prop := ∀ a, ∀ app ∈ s.apps.find? a, app.services ≠ []

structure WellFormed (s : DeviceState) : Prop where
  distinct : Distinct s
  inhabited : NoEmptyApp s

def removedBy : Attempt → Option String
  | (.removeContainer _ _ id,r) => if r.call.isOk then some id else none
  | (.startStoppedContainer _ _ id,r) => if r.call.isOk then some id else none
  | (_,_) => none

def startedBy : Attempt → Option String
  | (.startContainer _ _,r) => r.start.toOption
  | (.startStoppedContainer _ _ _,r) => if r.call.isOk then r.start.toOption else none
  | (_,_) => none

def opens : Attempt → Bool
  | (.startContainer _ _,r) => r.start.isOk
  | (_,_) => false

def keepsEntry : Attempt → Bool
  | (.startContainer _ _,r) => r.start.isOk
  | (.removeContainer _ _ _,r) => !r.call.isOk
  | (_,_) => false

def Removed (attempts : List Attempt) (id : String) : Prop :=
  ∃ x ∈ attempts, removedBy x = some id

/-- Once a service was started, or its removal failed, no later start of it
succeeds. -/
def StartsOnce (attempts : List Attempt) : Prop :=
  attempts.Pairwise (fun x y => subjectOf x = subjectOf y → keepsEntry x → ¬opens y)

/-- No start is answered with the id of a container the pass removes, and a
service whose entry names a removed container has its own container removed. -/
def RemovesOwn (current : DeviceState) (attempts : List Attempt) : Prop :=
  ∀ id, Removed attempts id →
    (∀ x ∈ attempts, startedBy x ≠ some id) ∧
    ∀ a i e, view current a i = some e → e.containerId = some id →
      ∃ x ∈ attempts, subjectOf x = some (a,i) ∧ (removedBy x).isSome

structure Sound (attempts : List Attempt) (after : DeviceState) : Prop extends
    WellFormed after where
  gone : ∀ id, Removed attempts id → ∀ a, ∀ app ∈ after.apps.find? a,
    ∀ svc ∈ app.services, svc.containerId ≠ some id

theorem noEmpty_putApp {s : DeviceState} (h : NoEmptyApp s) {app : DeviceApp}
    (hne : app.services ≠ []) : NoEmptyApp (s.putApp app) := by
  intro a app' ha
  have hf : (s.apps.put app).find? a = some app' := ha
  rw [KeyedRecords.find?_put] at hf
  by_cases he : a = app.appId
  · rw [if_pos he] at hf
    rw [← Option.some.inj hf]
    exact hne
  · rw [if_neg he] at hf
    exact h a app' hf

theorem noEmpty_remove {s : DeviceState} (h : NoEmptyApp s) (b j : ℕ) :
    NoEmptyApp (removeServiceFromCurrentState s b j) := by
  unfold removeServiceFromCurrentState
  cases hf : s.apps.find? b with
  | none => exact h
  | some app =>
    simp only
    split
    · intro a app' ha
      have ha' : (s.apps.erase b).find? a = some app' := ha
      rw [KeyedRecords.find?_erase] at ha'
      split at ha'
      · cases ha'
      · exact h a app' ha'
    · rename_i he
      apply noEmpty_putApp h
      intro hnil
      exact he (List.isEmpty_iff.mpr hnil)

theorem noEmpty_update {s : DeviceState} (h : NoEmptyApp s) (b j : ℕ) (state : Lifecycle) :
    NoEmptyApp (updateServiceState s b j state) := by
  unfold updateServiceState
  cases hf : s.apps.find? b with
  | none => exact h
  | some app =>
    apply noEmpty_putApp h
    intro hnil
    apply h b app hf
    have hmap := map_id_updateFirst app.services j (setState state) (fun _ => rfl)
    have hnil' : updateFirst j (setState state) app.services = [] := hnil
    rw [hnil'] at hmap
    exact List.map_eq_nil_iff.mp hmap.symm

theorem noEmpty_start {s : DeviceState} (h : NoEmptyApp s) (r : Reply) (b : ℕ)
    (service : ContainerService) : NoEmptyApp (startService r s b service).1 := by
  unfold startService
  cases r.start with
  | error e => exact h
  | ok id =>
    simp only
    rw [report_state]
    apply noEmpty_putApp h
    simp

theorem noEmpty_afterCall {s : DeviceState} (h : NoEmptyApp s) (r : Reply)
    (next : DeviceState → DeviceState × Option String) (hn : NoEmptyApp (next s).1) :
    NoEmptyApp (afterCall r s next).1 := by
  unfold afterCall
  cases r.call with
  | ok u => exact hn
  | error e => exact h

theorem noEmpty_advance {s : DeviceState} (h : NoEmptyApp s) (x : Attempt) :
    NoEmptyApp (advance s x) := by
  cases hs : subjectOf x with
  | none =>
    rw [advance_idle s x hs]
    exact h
  | some k =>
    obtain ⟨st,r⟩ := x
    cases st with
    | stopContainer b j id => exact noEmpty_afterCall h r _ (noEmpty_update h b j .stopped)
    | pauseContainer b j id => exact noEmpty_afterCall h r _ (noEmpty_update h b j .paused)
    | unpauseContainer b j id => exact noEmpty_afterCall h r _ (noEmpty_update h b j .running)
    | removeContainer b j id => exact noEmpty_afterCall h r _ (noEmpty_remove h b j)
    | startContainer b service => exact noEmpty_start h r b service
    | startStoppedContainer b j id =>
      unfold advance executeStep
      simp only
      split
      · exact h
      · exact noEmpty_afterCall h r _ (noEmpty_start (noEmpty_remove h b j) r b _)
    | downloadImage a n => cases hs
    | createVolume a n => cases hs
    | createNetwork a n => cases hs
    | removeNetwork a n => cases hs
    | removeVolume a n => cases hs
    | noop => cases hs

theorem noEmpty_executeSteps (attempts : List Attempt) {s : DeviceState} (h : NoEmptyApp s) :
    NoEmptyApp (executeSteps s attempts) := by
  have hstep : ∀ s x, True → NoEmptyApp s → NoEmptyApp (advance s x) :=
    fun s x _ hs => noEmpty_advance hs x
  exact run_invariant hstep attempts s (meets_any _ _ _) h

/-- What a service's entries can meet in a plan: steps that start nothing,
a restart, starts where there is no entry, or a creation anew. -/
inductive CellPlan (a i : ℕ) : List ContainerService → List Step → Prop
  | still (xs : List ContainerService) (ops : List Step)
      (h : ∀ x : Attempt, x.1 ∈ ops → startedBy x = none) : CellPlan a i xs ops
  | restart (c : ContainerService) (id : String) (ops : List Step)
      (h : ∀ st ∈ ops, ∃ id, st = .pauseContainer a i id) :
      CellPlan a i [c] (.startStoppedContainer a i id::ops)
  | create (ops : List Step) (h : ∀ st ∈ ops, ∃ svc, st = .startContainer a svc) :
      CellPlan a i [] ops
  | recreate (c t : ContainerService) (id : String) :
      CellPlan a i [c] [.stopContainer a i id,.removeContainer a i id,.startContainer a t]

theorem removeSteps_still (a i : ℕ) (service : ContainerService) (x : Attempt)
    (hx : x.1 ∈ removeSteps a i service) : startedBy x = none := by
  obtain ⟨st,r⟩ := x
  unfold removeSteps at hx
  cases hc : container service with
  | none => simp [hc] at hx
  | some id =>
    simp only [hc, List.mem_cons, List.not_mem_nil, or_false] at hx
    rcases hx with rfl | rfl
    · rfl
    · rfl

theorem cellPlan_nil (a i : ℕ) (xs : List ContainerService) : CellPlan a i xs [] := by
  apply CellPlan.still
  intro x hx
  cases hx

theorem cellPlan_transition (a i : ℕ) (c : ContainerService) (id : String) (x y : Lifecycle) :
    CellPlan a i [c] (transitionSteps a i id x y) := by
  cases x <;> cases y
  case stopped.running => exact .restart c id [] (by simp)
  case stopped.paused => exact .restart c id [_] (by simp)
  case running.running => exact cellPlan_nil a i _
  case stopped.stopped => exact cellPlan_nil a i _
  case paused.paused => exact cellPlan_nil a i _
  all_goals
    apply CellPlan.still
    rintro ⟨st,r⟩ hx
    simp only [transitionSteps, List.mem_cons, List.not_mem_nil, or_false] at hx
  case running.stopped => subst hx; rfl
  case running.paused => subst hx; rfl
  case paused.running => subst hx; rfl
  case paused.stopped =>
    rcases hx with rfl | rfl
    · rfl
    · rfl

theorem cellPlan_serviceOps (shouldRetry : String → Bool) (a i : ℕ)
    (current target : Option ContainerService) :
    CellPlan a i current.toList (serviceOps shouldRetry a i current target) := by
  cases current with
  | none =>
    cases target with
    | none => exact cellPlan_nil a i _
    | some t =>
      apply CellPlan.create
      intro st hst
      simp only [serviceOps] at hst
      split at hst
      · exact ⟨t,List.mem_singleton.mp hst⟩
      · cases hst
  | some c =>
    cases target with
    | none => exact .still _ _ (removeSteps_still a i c)
    | some t =>
      simp only [serviceOps, Option.toList_some]
      cases container c with
      | none => exact cellPlan_nil a i _
      | some id =>
        simp only
        split
        · split
          · exact .recreate c t id
          · exact cellPlan_nil a i _
        · exact cellPlan_transition a i c id _ _

theorem entries_distinct {s : DeviceState} (h : Distinct s) {a : ℕ} {app : DeviceApp}
    (hf : s.apps.find? a = some app) (i : ℕ) :
    entries s a i = (mapGet app.services i).toList := by
  rw [entries_some hf, mapGet_eq (h a app hf)]
  have hn := h a app hf
  generalize app.services = services at hn
  induction services with
  | nil => rfl
  | cons svc services ih =>
    have hout := (List.nodup_cons.mp hn).1
    have hrest := ih (List.nodup_cons.mp hn).2
    by_cases hs : svc.serviceId = i
    · have hnone : findService services i = none := by
        apply findService_none_iff.mpr
        rw [← hs]
        exact hout
      rw [hnone] at hrest
      rw [List.filter_cons, if_pos (by simp [ofService, hs]), hrest]
      simp [findService, hs]
    · rw [List.filter_cons, if_neg (by simp [ofService, hs]), hrest]
      simp [findService, hs]

theorem cellPlan_cellSteps (shouldRetry : String → Bool) {current : DeviceState}
    (hc : Distinct current) (target : DeviceState) (a i : ℕ) :
    CellPlan a i (entries current a i)
      (cellSteps shouldRetry a i (current.apps.find? a) (target.apps.find? a)) := by
  cases hca : current.apps.find? a with
  | none =>
    rw [entries_none hca]
    cases hta : target.apps.find? a with
    | none => exact cellPlan_nil a i _
    | some targetApp =>
      apply CellPlan.create
      intro st hst
      have hmem := List.mem_flatMap.mp hst
      obtain ⟨svc,_,hsvc⟩ := hmem
      split at hsvc
      · exact ⟨svc,List.mem_singleton.mp hsvc⟩
      · cases hsvc
  | some currentApp =>
    cases hta : target.apps.find? a with
    | none =>
      apply CellPlan.still
      intro x hx
      have hmem := List.mem_flatMap.mp hx
      obtain ⟨svc,_,hsvc⟩ := hmem
      exact removeSteps_still a i svc x hsvc
    | some targetApp =>
      rw [entries_distinct hc hca]
      exact cellPlan_serviceOps shouldRetry a i _ _

theorem distinct_iff_entries (s : DeviceState) :
    Distinct s ↔ ∀ a i, (entries s a i).length ≤ 1 := by
  have happ : ∀ a, ∀ app ∈ s.apps.find? a,
      ((app.services.map ContainerService.serviceId).Nodup ↔
        ∀ i, (entries s a i).length ≤ 1) := by
    intro a app hf
    rw [List.nodup_iff_count]
    apply forall_congr'
    intro i
    rw [entries_some hf, List.count, List.countP_map, List.countP_eq_length_filter]
    rfl
  constructor
  · intro h a
    cases hf : s.apps.find? a with
    | none =>
      intro i
      simp [entries_none hf]
    | some app => exact (happ a app hf).mp (h a app hf)
  · intro h a app hf
    exact (happ a app hf).mpr (h a)

theorem length_opened (service : ContainerService) (r : Reply) :
    (opened service r).length = if r.start.isOk then 1 else 0 := by
  unfold opened
  cases r.start <;> rfl

theorem length_afterStep_still {xs : List ContainerService} (hxs : xs.length ≤ 1) (x : Attempt)
    (hx : opens x = false) : (afterStep xs x).length ≤ 1 := by
  obtain ⟨st,r⟩ := x
  cases st with
  | startContainer b service =>
    have hr : r.start.isOk = false := hx
    simp [afterStep, length_opened, hr, hxs]
  | startStoppedContainer b j id =>
    simp only [afterStep]
    split
    · exact hxs
    · split
      · rw [length_opened]
        split <;> omega
      · exact hxs
  | stopContainer b j id => simp only [afterStep]; split <;> simp [hxs]
  | pauseContainer b j id => simp only [afterStep]; split <;> simp [hxs]
  | unpauseContainer b j id => simp only [afterStep]; split <;> simp [hxs]
  | removeContainer b j id => simp only [afterStep]; split <;> simp [hxs]
  | downloadImage a n => exact hxs
  | createVolume a n => exact hxs
  | createNetwork a n => exact hxs
  | removeNetwork a n => exact hxs
  | removeVolume a n => exact hxs
  | noop => exact hxs

theorem length_run_still (attempts : List Attempt) {xs : List ContainerService}
    (hxs : xs.length ≤ 1) (h : ∀ x ∈ attempts, opens x = false) :
    (run afterStep attempts xs).length ≤ 1 := by
  induction attempts generalizing xs with
  | nil => exact hxs
  | cons x attempts ih =>
    rw [run_cons]
    apply ih (length_afterStep_still hxs x (h x List.mem_cons_self))
    intro y hy
    exact h y (List.mem_cons_of_mem x hy)

def Clear (x y : Attempt) : Prop := keepsEntry x → ¬opens y

theorem clear_of_still {attempts : List Attempt} (h : ∀ x ∈ attempts, opens x = false) :
    attempts.Pairwise Clear := by
  apply List.pairwise_of_forall_mem_list
  intro x _ y hy _
  simp [h y hy]

theorem length_run_create (a : ℕ) (attempts : List Attempt) (xs : List ContainerService)
    (h : ∀ x ∈ attempts, ∃ svc, x.1 = .startContainer a svc) :
    (run afterStep attempts xs).length = xs.length+attempts.countP opens := by
  induction attempts generalizing xs with
  | nil => simp
  | cons x attempts ih =>
    obtain ⟨st,r⟩ := x
    obtain ⟨svc,rfl⟩ := h _ List.mem_cons_self
    rw [run_cons, ih _ (fun y hy => h y (List.mem_cons_of_mem _ hy)), List.countP_cons]
    rw [show afterStep xs (.startContainer a svc,r) = xs++opened svc r from rfl,
      show opens (.startContainer a svc,r) = r.start.isOk from rfl, List.length_append,
      length_opened]
    by_cases hr : r.start.isOk
    · simp only [hr, if_true]
      omega
    · simp only [hr]
      omega

theorem pairwise_create {a : ℕ} (attempts : List Attempt)
    (h : ∀ x ∈ attempts, ∃ svc, x.1 = .startContainer a svc) :
    attempts.Pairwise Clear ↔ attempts.countP opens ≤ 1 := by
  induction attempts with
  | nil => simp
  | cons x attempts ih =>
    have hkeeps : keepsEntry x = opens x := by
      obtain ⟨st,r⟩ := x
      obtain ⟨svc,rfl⟩ := h _ List.mem_cons_self
      rfl
    rw [List.pairwise_cons, ih (fun y hy => h y (List.mem_cons_of_mem _ hy)), List.countP_cons]
    by_cases hx : opens x
    · have hnone : (∀ y ∈ attempts, Clear x y) ↔ attempts.countP opens = 0 := by
        rw [List.countP_eq_zero]
        apply forall_congr'
        intro y
        apply imp_congr_right
        intro _
        simp [Clear, hkeeps, hx]
      rw [hnone, if_pos hx]
      omega
    · have hall : ∀ y ∈ attempts, Clear x y := by
        intro y _ hk
        rw [hkeeps] at hk
        exact absurd hk hx
      rw [if_neg hx]
      exact ⟨fun hc => hc.2,fun hc => ⟨hall,hc⟩⟩

theorem opens_of_startedBy {x : Attempt} (h : startedBy x = none) : opens x = false := by
  obtain ⟨st,r⟩ := x
  cases st with
  | startContainer b service =>
    have hr : r.start.toOption = none := h
    show r.start.isOk = false
    cases hs : r.start with
    | ok id =>
      rw [hs] at hr
      cases hr
    | error e => rfl
  | _ => rfl

/-- One service: it has at most one entry after its steps exactly if its
answers are clear. -/
theorem cell_single_iff {a i : ℕ} {xs : List ContainerService} {ops : List Step}
    (hp : CellPlan a i xs ops) (hxs : xs.length ≤ 1) (attempts : List Attempt)
    (hmap : attempts.map Prod.fst = ops) :
    (run afterStep attempts xs).length ≤ 1 ↔ attempts.Pairwise Clear := by
  cases hp with
  | still _ _ h =>
    have hs : ∀ x ∈ attempts, opens x = false := by
      intro x hx
      apply opens_of_startedBy
      apply h
      rw [← hmap]
      exact List.mem_map_of_mem hx
    exact iff_of_true (length_run_still attempts hxs hs) (clear_of_still hs)
  | restart c id rest h =>
    have hs : ∀ x ∈ attempts, opens x = false := by
      intro x hx
      have hx' : x.1 ∈ _ := hmap ▸ List.mem_map_of_mem hx
      obtain ⟨st,r⟩ := x
      rcases List.mem_cons.mp hx' with he | he
      · simp only at he
        subst he
        rfl
      · obtain ⟨id',he'⟩ := h st he
        subst he'
        rfl
    exact iff_of_true (length_run_still attempts hxs hs) (clear_of_still hs)
  | create _ h =>
    have hs : ∀ x ∈ attempts, ∃ svc, x.1 = .startContainer a svc := by
      intro x hx
      apply h
      rw [← hmap]
      exact List.mem_map_of_mem hx
    rw [pairwise_create attempts hs, length_run_create a attempts [] hs]
    simp
  | recreate c t id =>
    obtain ⟨⟨_,r⟩,rest,rfl,rfl,hrest⟩ := List.map_eq_cons_iff.mp hmap
    obtain ⟨⟨_,r'⟩,rest',rfl,rfl,hrest'⟩ := List.map_eq_cons_iff.mp hrest
    obtain ⟨⟨_,r''⟩,_,rfl,rfl,hnil⟩ := List.map_eq_cons_iff.mp hrest'
    obtain rfl := List.map_eq_nil_iff.mp hnil
    have hstop : (afterStep [c] (.stopContainer a i id,r)).length = 1 := by
      simp only [afterStep]
      split <;> rfl
    rw [run_cons]
    generalize afterStep [c] (.stopContainer a i id,r) = ys at hstop
    cases hr' : r'.call.isOk <;> cases hr'' : r''.start.isOk <;>
      simp [afterStep, length_opened, Clear, keepsEntry, opens, hr', hr'', hstop]

end Iotistica.ContainerFailures
