import Iotistica.ContainerFailures
import Iotistica.ContainerConvergence

/-!
# The current state after a pass with failures

Entries name their containers. A removal drops every entry of its service
and no other, so an entry of a removed container is left only where two
services share it or a start was answered with its id. The last theorem
says exactly when a pass leaves a sound state.
-/

set_option autoImplicit false

namespace Iotistica.ContainerBookkeeping
open Iotistica Iotistica.GuardedRun Iotistica.CellRun Iotistica.ContainerState
  Iotistica.ContainerPlanner Iotistica.ContainerExecutor Iotistica.ContainerEntries
  Iotistica.ContainerCells Iotistica.ContainerSettling Iotistica.ContainerConvergence
  Iotistica.ContainerFailures

theorem ids_record (b : Bool) (state : Lifecycle) (xs : List ContainerService) :
    (if b then xs.modifyHead (setState state) else xs).map ContainerService.containerId =
      xs.map ContainerService.containerId := by
  cases b with
  | false => rfl
  | true => cases xs <;> rfl

theorem ids_opened (service : ContainerService) (r : Reply) :
    (opened service r).map ContainerService.containerId = r.start.toOption.toList.map some := by
  unfold opened
  cases r.start <;> rfl

theorem ids_afterStep (xs : List ContainerService) (x : Attempt) (hx : removedBy x = none) :
    (afterStep xs x).map ContainerService.containerId =
      xs.map ContainerService.containerId++(startedBy x).toList.map some := by
  obtain ⟨st,r⟩ := x
  cases st with
  | stopContainer b j id => simpa [afterStep, startedBy] using ids_record r.call.isOk .stopped xs
  | pauseContainer b j id => simpa [afterStep, startedBy] using ids_record r.call.isOk .paused xs
  | unpauseContainer b j id => simpa [afterStep, startedBy] using ids_record r.call.isOk .running xs
  | removeContainer b j id =>
    have hr : r.call.isOk = false := by simpa [removedBy] using hx
    simp [afterStep, startedBy, hr]
  | startStoppedContainer b j id =>
    have hr : r.call.isOk = false := by simpa [removedBy] using hx
    simp only [afterStep, startedBy, hr]
    split <;> simp
  | startContainer b service =>
    simp only [afterStep, startedBy, List.map_append, ids_opened]
  | downloadImage a n => simp [afterStep, startedBy]
  | createVolume a n => simp [afterStep, startedBy]
  | createNetwork a n => simp [afterStep, startedBy]
  | removeNetwork a n => simp [afterStep, startedBy]
  | removeVolume a n => simp [afterStep, startedBy]
  | noop => simp [afterStep, startedBy]

theorem ids_of_removal (xs : List ContainerService) (x : Attempt) {id : String}
    (hx : removedBy x = some id) (e : ContainerService) (he : e ∈ afterStep xs x) :
    e.containerId ∈ (startedBy x).toList.map some := by
  obtain ⟨st,r⟩ := x
  cases st with
  | removeContainer b j id' =>
    have hr : r.call.isOk = true := by
      by_contra hn
      simp [removedBy, hn] at hx
    simp [afterStep, hr] at he
  | startStoppedContainer b j id' =>
    have hr : r.call.isOk = true := by
      by_contra hn
      simp [removedBy, hn] at hx
    simp only [afterStep, hr, if_true] at he
    simp only [startedBy, hr, if_true]
    split at he
    · rename_i hnone
      rw [List.head?_eq_none_iff.mp hnone] at he
      cases he
    · rw [← ids_opened]
      exact List.mem_map_of_mem he
  | _ => cases hx

theorem mem_ids {xs : List ContainerService} {id : Option String} :
    id ∈ xs.map ContainerService.containerId ↔ ∃ e ∈ xs, e.containerId = id := List.mem_map

/-- An entry after a step is the one the step filed, or was there before
and the step removed nothing. -/
theorem origin_afterStep (xs : List ContainerService) (x : Attempt) (e : ContainerService)
    (he : e ∈ afterStep xs x) :
    (∃ id, startedBy x = some id ∧ e.containerId = some id) ∨
      (removedBy x = none ∧ ∃ e₀ ∈ xs, e₀.containerId = e.containerId) := by
  have hstarted : e.containerId ∈ (startedBy x).toList.map some →
      ∃ id, startedBy x = some id ∧ e.containerId = some id := by
    intro h
    obtain ⟨id,hid,heq⟩ := List.mem_map.mp h
    exact ⟨id,Option.mem_toList.mp hid,heq.symm⟩
  cases hx : removedBy x with
  | some id => exact Or.inl (hstarted (ids_of_removal xs x hx e he))
  | none =>
    have hmem := mem_ids.mpr ⟨e,he,rfl⟩
    rw [ids_afterStep xs x hx] at hmem
    rcases List.mem_append.mp hmem with h | h
    · exact Or.inr ⟨rfl,mem_ids.mp h⟩
    · exact Or.inl (hstarted h)

theorem origin_run (attempts : List Attempt) (xs : List ContainerService) (e : ContainerService)
    (he : e ∈ run afterStep attempts xs) :
    (∃ x ∈ attempts, ∃ id, startedBy x = some id ∧ e.containerId = some id) ∨
      ((∀ x ∈ attempts, removedBy x = none) ∧ ∃ e₀ ∈ xs, e₀.containerId = e.containerId) := by
  induction attempts generalizing xs with
  | nil => exact Or.inr ⟨by simp,e,he,rfl⟩
  | cons x attempts ih =>
    rcases ih _ he with h | h
    · obtain ⟨y,hy,hs⟩ := h
      exact Or.inl ⟨y,List.mem_cons_of_mem x hy,hs⟩
    · obtain ⟨hnone,e₁,he₁,hid⟩ := h
      rcases origin_afterStep xs x e₁ he₁ with h | h
      · rw [hid] at h
        exact Or.inl ⟨x,List.mem_cons_self,h⟩
      · obtain ⟨hx,e₀,he₀,hid₀⟩ := h
        exact Or.inr ⟨List.forall_mem_cons.mpr ⟨hx,hnone⟩,e₀,he₀,hid₀.trans hid⟩

theorem ids_run (attempts : List Attempt) (xs : List ContainerService)
    (h : ∀ x ∈ attempts, removedBy x = none) :
    (run afterStep attempts xs).map ContainerService.containerId =
      xs.map ContainerService.containerId++(attempts.filterMap startedBy).map some := by
  induction attempts generalizing xs with
  | nil => simp
  | cons x attempts ih =>
    have hx := List.forall_mem_cons.mp h
    rw [run_cons, ih _ hx.2, ids_afterStep xs x hx.1, List.append_assoc]
    cases hs : startedBy x <;> simp [hs]

theorem started_kept {a i : ℕ} {xs : List ContainerService} {ops : List Step}
    (hp : CellPlan a i xs ops) (attempts : List Attempt) (hmap : attempts.map Prod.fst = ops)
    {x : Attempt} (hx : x ∈ attempts) {id : String} (hid : startedBy x = some id) :
    ∃ e ∈ run afterStep attempts xs, e.containerId = some id := by
  apply mem_ids.mp
  have hin : ∀ y ∈ attempts, y.1 ∈ ops := by
    intro y hy
    rw [← hmap]
    exact List.mem_map_of_mem hy
  cases hp with
  | still _ _ h =>
    rw [h x (hin x hx)] at hid
    cases hid
  | create _ h =>
    have hkeep : ∀ y ∈ attempts, removedBy y = none := by
      rintro ⟨st,r⟩ hy
      obtain ⟨svc,he⟩ := h st (hin _ hy)
      subst he
      rfl
    rw [ids_run attempts [] hkeep]
    apply List.mem_append_right
    exact List.mem_map_of_mem (List.mem_filterMap.mpr ⟨x,hx,hid⟩)
  | restart c id' rest h =>
    obtain ⟨⟨_,r⟩,tail,rfl,rfl,htail⟩ := List.map_eq_cons_iff.mp hmap
    have hpause : ∀ y ∈ tail, removedBy y = none ∧ startedBy y = none := by
      rintro ⟨st,r⟩ hy
      have hst : st ∈ rest := by
        rw [← htail]
        exact List.mem_map_of_mem hy
      obtain ⟨id'',he⟩ := h st hst
      subst he
      exact ⟨rfl,rfl⟩
    rw [run_cons, ids_run tail _ (fun y hy => (hpause y hy).1)]
    apply List.mem_append_left
    rcases List.mem_cons.mp hx with rfl | hx
    · have hr : r.call.isOk = true := by
        by_contra hn
        simp [startedBy, hn] at hid
      have hs : r.start.toOption = some id := by simpa [startedBy, hr] using hid
      rw [show afterStep [c] (.startStoppedContainer a i id',r) = opened c r by
        simp [afterStep, hr], ids_opened, hs]
      exact List.mem_singleton.mpr rfl
    · rw [(hpause x hx).2] at hid
      cases hid
  | recreate c t id' =>
    obtain ⟨⟨_,r⟩,rest,rfl,rfl,hrest⟩ := List.map_eq_cons_iff.mp hmap
    obtain ⟨⟨_,r'⟩,rest',rfl,rfl,hrest'⟩ := List.map_eq_cons_iff.mp hrest
    obtain ⟨⟨_,r''⟩,_,rfl,rfl,hnil⟩ := List.map_eq_cons_iff.mp hrest'
    obtain rfl := List.map_eq_nil_iff.mp hnil
    rw [run_cons, run_cons, ids_run [_] _ (by simp [removedBy])]
    apply List.mem_append_right
    simp only [List.mem_cons, List.not_mem_nil, or_false] at hx
    rcases hx with rfl | rfl | rfl
    · cases hid
    · cases hid
    · simp [hid]

section Pass
variable (shouldRetry : String → Bool) (replies : ℕ → Reply) (current target : DeviceState)

def passOf : List Attempt := answered replies (calculateSteps shouldRetry current target)

theorem map_fst_pass (a i : ℕ) :
    ((passOf shouldRetry replies current target).filter (ofCell subjectOf (a,i))).map Prod.fst =
      cellSteps shouldRetry a i (current.apps.find? a) (target.apps.find? a) := by
  unfold passOf
  rw [filter_answered, filter_calculateSteps_cell]

theorem entries_pass (a i : ℕ) :
    entries (applyTargetState shouldRetry replies current target) a i =
      run afterStep ((passOf shouldRetry replies current target).filter (ofCell subjectOf (a,i)))
        (entries current a i) :=
  executeSteps_entries _ current a i

variable {current}

theorem distinct_pass_iff (hc : Distinct current) :
    Distinct (applyTargetState shouldRetry replies current target) ↔
      StartsOnce (passOf shouldRetry replies current target) := by
  have hidle : ∀ x y, subjectOf y = none → Clear x y := by
    rintro x ⟨st,r⟩ hy _
    cases st with
    | startContainer b service => cases hy
    | _ => simp [opens]
  have hcells := pairwise_cells hidle (passOf shouldRetry replies current target)
  unfold StartsOnce
  rw [distinct_iff_entries]
  refine Iff.trans ?_ hcells.symm
  rw [Prod.forall]
  apply forall_congr'
  intro a
  apply forall_congr'
  intro i
  rw [entries_pass]
  exact cell_single_iff (cellPlan_cellSteps shouldRetry hc target a i)
    ((distinct_iff_entries current).mp hc a i) _ (map_fst_pass shouldRetry replies current target a i)

theorem mem_entries {s : DeviceState} {a i : ℕ} {e : ContainerService} :
    e ∈ entries s a i ↔ ∃ app ∈ s.apps.find? a, e ∈ app.services ∧ e.serviceId = i := by
  cases hf : s.apps.find? a with
  | none => simp [entries_none hf]
  | some app => simp [entries_some hf, ofService]

theorem mem_entries_view {s : DeviceState} (h : Distinct s) {a i : ℕ} {e : ContainerService} :
    e ∈ entries s a i ↔ view s a i = some e := by
  have hlen := (distinct_iff_entries s).mp h a i
  have hview : view s a i = (entries s a i).head? := getService_eq s a i
  rw [hview]
  match hxs : entries s a i with
  | [] => simp
  | [x] => simp [eq_comm]
  | x::y::zs =>
    rw [hxs] at hlen
    simp at hlen

theorem subject_of_removal {x : Attempt} (h : (removedBy x).isSome ∨ (startedBy x).isSome) :
    ∃ a i, subjectOf x = some (a,i) := by
  obtain ⟨st,r⟩ := x
  cases st with
  | startContainer b service => exact ⟨b,service.serviceId,rfl⟩
  | startStoppedContainer b j id => exact ⟨b,j,rfl⟩
  | removeContainer b j id => exact ⟨b,j,rfl⟩
  | _ => simp [removedBy, startedBy] at h

theorem mem_cell {attempts : List Attempt} {x : Attempt} {a i : ℕ} :
    x ∈ attempts.filter (ofCell subjectOf (a,i)) ↔ x ∈ attempts ∧ subjectOf x = some (a,i) := by
  simp [List.mem_filter, ofCell]

theorem id_kept {attempts : List Attempt} {xs : List ContainerService} {id : String}
    (hkeep : ∀ x ∈ attempts, removedBy x = none)
    (hid : some id ∈ xs.map ContainerService.containerId) :
    ∃ e ∈ run afterStep attempts xs, e.containerId = some id := by
  apply mem_ids.mp
  rw [ids_run attempts xs hkeep]
  exact List.mem_append_left _ hid

theorem gone_pass_iff (hc : Distinct current) :
    (∀ id, Removed (passOf shouldRetry replies current target) id →
      ∀ a, ∀ app ∈ (applyTargetState shouldRetry replies current target).apps.find? a,
        ∀ svc ∈ app.services, svc.containerId ≠ some id) ↔
      RemovesOwn current (passOf shouldRetry replies current target) := by
  constructor
  · intro h id hid
    have hnone : ∀ a i e, e ∈ entries (applyTargetState shouldRetry replies current target) a i →
        e.containerId ≠ some id := by
      intro a i e he
      obtain ⟨app,happ,hsvc,_⟩ := mem_entries.mp he
      exact h id hid a app happ e hsvc
    constructor
    · intro x hx hs
      obtain ⟨a,i,hsub⟩ := subject_of_removal (x := x) (Or.inr (by rw [hs]; rfl))
      obtain ⟨e,he,heid⟩ := started_kept (cellPlan_cellSteps shouldRetry hc target a i) _
        (map_fst_pass shouldRetry replies current target a i) (mem_cell.mpr ⟨hx,hsub⟩) hs
      rw [← entries_pass] at he
      exact hnone a i e he heid
    · intro a i e he heid
      by_contra hno
      have hkeep : ∀ x ∈ (passOf shouldRetry replies current target).filter
          (ofCell subjectOf (a,i)), removedBy x = none := by
        intro x hx
        have hx' := mem_cell.mp hx
        by_contra hne
        exact hno ⟨x,hx'.1,hx'.2,Option.isSome_iff_ne_none.mpr hne⟩
      have hin : some id ∈ (entries current a i).map ContainerService.containerId :=
        mem_ids.mpr ⟨e,(mem_entries_view hc).mpr he,heid⟩
      obtain ⟨e',he',heid'⟩ := id_kept hkeep hin
      rw [← entries_pass] at he'
      exact hnone a i e' he' heid'
  · intro h id hid a app happ svc hsvc heid
    have hown := h id hid
    have hmem : svc ∈ entries (applyTargetState shouldRetry replies current target) a
        svc.serviceId := mem_entries.mpr ⟨app,happ,hsvc,rfl⟩
    rw [entries_pass] at hmem
    rcases origin_run _ _ svc hmem with ho | ho
    · obtain ⟨x,hx,id',hs,hid'⟩ := ho
      rw [heid] at hid'
      rw [← Option.some.inj hid'] at hs
      exact hown.1 x (mem_cell.mp hx).1 hs
    · obtain ⟨hnone,e₀,he₀,hsame⟩ := ho
      obtain ⟨x,hx,hsub,hrem⟩ := hown.2 a svc.serviceId e₀ ((mem_entries_view hc).mp he₀)
        (hsame.trans heid)
      rw [hnone x (mem_cell.mpr ⟨hx,hsub⟩)] at hrem
      cases hrem

theorem applyTargetState_sound_iff (hc : WellFormed current) :
    Sound (passOf shouldRetry replies current target)
        (applyTargetState shouldRetry replies current target) ↔
      StartsOnce (passOf shouldRetry replies current target) ∧
        RemovesOwn current (passOf shouldRetry replies current target) := by
  rw [← distinct_pass_iff shouldRetry replies target hc.distinct,
    ← gone_pass_iff shouldRetry replies target hc.distinct]
  constructor
  · intro h
    exact ⟨h.distinct,h.gone⟩
  · intro h
    exact ⟨⟨h.1,noEmpty_executeSteps _ hc.inhabited⟩,h.2⟩

end Pass

theorem noEmpty_of_items {s : DeviceState} (h : ∀ app ∈ s.apps.items, app.services ≠ []) :
    NoEmptyApp s := by
  intro a app hf
  exact h app (List.mem_of_find?_eq_some hf)

def deviceOf (imageName : String) (containerId : Option String) : DeviceState where
  apps := ⟨[⟨1,"shop",none,
    [{ serviceId := 1, serviceName := "web", imageName := imageName, appId := 1, appName := "shop",
       containerId := containerId }]⟩],by simp⟩

theorem deviceOf_wellFormed (imageName : String) (containerId : Option String) :
    WellFormed (deviceOf imageName containerId) :=
  ⟨distinct_of_items (by simp [deviceOf]),noEmpty_of_items (by simp [deviceOf])⟩

/-- Docker refuses the removal, and a start finds the old container by its
name. -/
def busyReply : Reply := ⟨true,.error "removal in progress",.ok "aa",.ok ()⟩

def deadReply : Reply := ⟨true,.error "no daemon",.error "no daemon",.ok ()⟩

theorem sound_without_daemon :
    Sound (passOf (fun _ => true) (fun _ => deadReply) (deviceOf "web:1" (some "aa"))
        (deviceOf "web:2" none))
      (applyTargetState (fun _ => true) (fun _ => deadReply) (deviceOf "web:1" (some "aa"))
        (deviceOf "web:2" none)) := by
  rw [applyTargetState_sound_iff _ _ _ (deviceOf_wellFormed _ _)]
  constructor
  · unfold StartsOnce
    decide
  · intro id hid
    obtain ⟨x,hx,hrem⟩ := hid
    have hnone : ∀ x ∈ passOf (fun _ => true) (fun _ => deadReply) (deviceOf "web:1" (some "aa"))
        (deviceOf "web:2" none), removedBy x = none := by decide
    rw [hnone x hx] at hrem
    cases hrem

/-- An update whose removal fails files the service a second time. -/
theorem failed_removal_files_twice :
    WellFormed (deviceOf "web:1" (some "aa")) ∧
    ¬Sound (passOf (fun _ => true) (fun _ => busyReply) (deviceOf "web:1" (some "aa"))
        (deviceOf "web:2" none))
      (applyTargetState (fun _ => true) (fun _ => busyReply) (deviceOf "web:1" (some "aa"))
        (deviceOf "web:2" none)) := by
  refine ⟨deviceOf_wellFormed _ _,?_⟩
  intro h
  have hlen := (distinct_iff_entries _).mp h.distinct 1 1
  revert hlen
  decide

end Iotistica.ContainerBookkeeping
