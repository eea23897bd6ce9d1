import Iotistica.ContainerOrdering

/-!
# Which containers a plan takes away and which it creates

Removals and restarts take a container away, starts and restarts create
one. What is left of an app after its container steps is read off from the
steps alone, since a restart is the first step of its service and finds the
entry the service had when the plan was made.
-/

set_option autoImplicit false

namespace Iotistica.ContainerTurnover
open Iotistica Iotistica.GuardedRun Iotistica.CellRun Iotistica.ContainerState
  Iotistica.ContainerPlanner Iotistica.ContainerExecutor Iotistica.ContainerEntries
  Iotistica.ContainerCells Iotistica.ContainerResources Iotistica.ContainerOrdering

theorem drops_acting {look : ℕ → ℕ → Option ContainerService} {id : String} {st : Step}
    (h : dropsId look id st) : acting st = true := by
  cases st with
  | removeContainer a i id' => rfl
  | startStoppedContainer a i id' => rfl
  | _ => exact absurd h (by simp [dropsId])

theorem creates_acting {look : ℕ → ℕ → Option ContainerService} {svc : ContainerService}
    {st : Step} (h : creates look svc st) : acting st = true := by
  cases st with
  | startContainer a svc' => rfl
  | startStoppedContainer a i id' => rfl
  | _ => exact absurd h (by simp [creates])

section Service
variable (shouldRetry : String → Bool) (a i : ℕ) {look : ℕ → ℕ → Option ContainerService}

theorem removeSteps_drops (c : ContainerService) (id : String) :
    (∃ st ∈ removeSteps a i c, dropsId look id st) ↔ container c = some id := by
  unfold removeSteps
  cases container c with
  | none => simp
  | some id' => simp [dropsId]

theorem removeSteps_creates (c svc : ContainerService) :
    ¬∃ st ∈ removeSteps a i c, creates look svc st := by
  unfold removeSteps
  cases container c <;> simp [creates]

theorem addSteps_drops (t : ContainerService) (id : String) :
    ¬∃ st ∈ addSteps a t, dropsId look id st := by
  unfold addSteps
  split <;> simp [dropsId]

theorem addSteps_creates (t svc : ContainerService) (h : ∃ st ∈ addSteps a t, creates look svc st) :
    svc = t := by
  unfold addSteps at h
  split at h
  · simpa [creates] using h
  · simp at h

theorem serviceSteps_drops (current target : Option ContainerService) (id : String)
    (hlook : current.isSome → (look a i).isSome) :
    (∃ st ∈ serviceSteps shouldRetry a a i current target, dropsId look id st) ↔
      ∃ c ∈ current, container c = some id ∧ ∀ t ∈ target, Replaced c t := by
  cases current with
  | none =>
    cases target with
    | none => simp [serviceSteps]
    | some t =>
      simp only [serviceSteps]
      split
      · simpa using addSteps_drops a t id
      · simp
  | some c =>
    have hl : (look a i).isSome = true := hlook rfl
    cases target with
    | none =>
      simp only [serviceSteps]
      rw [removeSteps_drops]
      simp
    | some t =>
      simp only [serviceSteps]
      cases hc : container c with
      | none => simp [hc]
      | some id' =>
        simp only [Option.mem_some_iff, exists_eq_left', hc, Option.some.injEq, forall_eq']
        by_cases he : desiredState c = desiredState t
        · rw [if_pos he]
          unfold updateSteps Replaced
          rw [if_pos he]
          cases needsUpdate c t <;> cases imageChanged c t <;> simp [dropsId]
        · rw [if_neg he]
          unfold Replaced
          rw [if_neg he]
          cases hx : desiredState c <;> cases hy : desiredState t <;>
            simp_all [transitionSteps, dropsId]

theorem serviceSteps_creates (current target : Option ContainerService) (svc : ContainerService) :
    (∃ st ∈ serviceSteps shouldRetry a a i current target, creates look svc st) →
      svc ∈ target ∨ ∃ c ∈ current, ∃ t ∈ target, (container c).isSome ∧
        desiredState c = .stopped ∧ desiredState t ≠ .stopped ∧ look a i = some svc := by
  intro h
  cases current with
  | none =>
    cases target with
    | none => simp [serviceSteps] at h
    | some t =>
      simp only [serviceSteps] at h
      split at h
      · exact Or.inl (congrArg some (addSteps_creates a t svc h).symm)
      · simp at h
  | some c =>
    cases target with
    | none => exact absurd h (removeSteps_creates a i c svc)
    | some t =>
      simp only [serviceSteps] at h
      cases hc : container c with
      | none => simp [hc] at h
      | some id =>
        simp only [hc] at h
        by_cases he : desiredState c = desiredState t
        · rw [if_pos he] at h
          unfold updateSteps at h
          left
          cases hu : needsUpdate c t <;> cases hm : imageChanged c t <;>
            simp [hu, hm, creates] at h
          · exact congrArg some h.symm
          · exact congrArg some h.symm
        · rw [if_neg he] at h
          right
          refine ⟨c,rfl,t,rfl,by simp [hc],?_⟩
          cases hx : desiredState c <;> cases hy : desiredState t <;>
            simp_all [transitionSteps, creates]

theorem serviceSteps_restart {c t svc : ContainerService} (hc : (container c).isSome)
    (hs : desiredState c = .stopped) (ht : desiredState t ≠ .stopped)
    (hl : look a i = some svc) :
    ∃ st ∈ serviceSteps shouldRetry a a i (some c) (some t), creates look svc st := by
  obtain ⟨id,hid⟩ := Option.isSome_iff_exists.mp hc
  have hne : desiredState c ≠ desiredState t := by
    rw [hs]
    exact Ne.symm ht
  refine ⟨.startStoppedContainer a i id,?_,hl⟩
  simp only [serviceSteps, hid, if_neg hne]
  rw [hs]
  cases hy : desiredState t with
  | running => simp [transitionSteps]
  | paused => simp [transitionSteps]
  | stopped => exact absurd hy ht

end Service

theorem exists_mem_update (shouldRetry : String → Bool) (current target : DeviceApp)
    (P : Step → Prop) :
    (∃ st ∈ planStepsToUpdateApp shouldRetry current target, P st) ↔
      ∃ i, ∃ st ∈ serviceSteps shouldRetry current.appId target.appId i
        (mapGet current.services i) (mapGet target.services i), P st := by
  constructor
  · rintro ⟨st,hst,hp⟩
    obtain ⟨i,_,hi⟩ := List.mem_flatMap.mp hst
    exact ⟨i,st,hi,hp⟩
  · rintro ⟨i,st,hst,hp⟩
    refine ⟨st,List.mem_flatMap.mpr ⟨i,?_,hst⟩,hp⟩
    rw [List.mem_eraseDups, List.mem_append]
    by_contra hout
    rw [not_or] at hout
    rw [mapGet_none_iff.mpr hout.1, mapGet_none_iff.mpr hout.2] at hst
    cases hst

theorem isSome_mapGet {services : List ContainerService} {i : ℕ}
    (h : (mapGet services i).isSome) : (findService services i).isSome := by
  rw [Option.isSome_iff_ne_none] at h ⊢
  intro hnone
  exact h (mapGet_none_iff.mpr (findService_none_iff.mp hnone))

def isRestart : Step → Bool
  | .startStoppedContainer _ _ _ => true
  | _ => false

theorem removeSteps_restart (a i : ℕ) (service : ContainerService) :
    ∀ st ∈ removeSteps a i service, isRestart st = false := by
  unfold removeSteps
  cases container service <;> simp [isRestart]

section App
variable (shouldRetry : String → Bool) {current target : DeviceState} {a : ℕ}
  {currentApp targetApp : DeviceApp}

theorem update_drops (hc : current.apps.find? a = some currentApp)
    (ht : target.apps.find? a = some targetApp) (id : String) :
    (∃ st ∈ planStepsToUpdateApp shouldRetry currentApp targetApp,
      dropsId (view current) id st) ↔ Vacated currentApp targetApp id := by
  rw [exists_mem_update, mem_find? hc, mem_find? ht]
  apply exists_congr
  intro i
  rw [serviceSteps_drops]
  · rfl
  · rw [view_eq hc]
    exact isSome_mapGet

theorem update_creates (hc : current.apps.find? a = some currentApp)
    (ht : target.apps.find? a = some targetApp) (svc : ContainerService)
    (h : ∃ st ∈ planStepsToUpdateApp shouldRetry currentApp targetApp,
      creates (view current) svc st) :
    svc ∈ targetApp.services ∨ Restarted currentApp targetApp svc := by
  rw [exists_mem_update, mem_find? hc, mem_find? ht] at h
  obtain ⟨i,hi⟩ := h
  rcases serviceSteps_creates shouldRetry a i _ _ svc hi with h | h
  · exact Or.inl (List.mem_reverse.mp (findService_mem h))
  · obtain ⟨c,hcm,t,htm,hcont,hs,hne,hv⟩ := h
    rw [view_eq hc] at hv
    exact Or.inr ⟨i,c,t,hcm,htm,hcont,hs,hne,hv⟩

theorem creates_of_restarted (hc : current.apps.find? a = some currentApp)
    (ht : target.apps.find? a = some targetApp) {svc : ContainerService}
    (h : Restarted currentApp targetApp svc) :
    ∃ st ∈ planStepsToUpdateApp shouldRetry currentApp targetApp,
      creates (view current) svc st := by
  obtain ⟨i,c,t,hcm,htm,hcont,hs,hne,hv⟩ := h
  rw [exists_mem_update, mem_find? hc, mem_find? ht]
  refine ⟨i,?_⟩
  rw [hcm, htm]
  apply serviceSteps_restart shouldRetry a i hcont hs hne
  rw [view_eq hc]
  exact hv

theorem cellSteps_tail (i : ℕ) (current target : Option DeviceApp) :
    ∀ st ∈ (cellSteps shouldRetry a i current target).tail, isRestart st = false := by
  have hall : ∀ {L : List Step}, (∀ st ∈ L, isRestart st = false) →
      ∀ st ∈ L.tail, isRestart st = false :=
    fun h st hst => h st (List.mem_of_mem_tail hst)
  cases current with
  | none =>
    cases target with
    | none => simp [cellSteps]
    | some t =>
      apply hall
      intro st hst
      obtain ⟨svc,_,hsvc⟩ := List.mem_flatMap.mp hst
      split at hsvc
      · rw [List.mem_singleton.mp hsvc]
        rfl
      · cases hsvc
  | some c =>
    cases target with
    | none =>
      apply hall
      intro st hst
      obtain ⟨svc,_,hsvc⟩ := List.mem_flatMap.mp hst
      exact removeSteps_restart a i svc st hsvc
    | some t =>
      show ∀ st ∈ (serviceOps shouldRetry a i _ _).tail, _
      cases mapGet c.services i with
      | none =>
        apply hall
        cases mapGet t.services i with
        | none => simp [serviceOps]
        | some t =>
          simp only [serviceOps]
          split <;> simp [isRestart]
      | some c =>
        cases mapGet t.services i with
        | none => exact hall (removeSteps_restart a i c)
        | some t =>
          simp only [serviceOps]
          cases container c with
          | none => simp
          | some id =>
            simp only
            split
            · split <;> simp [isRestart]
            · cases desiredState c <;> cases desiredState t <;> simp [transitionSteps, isRestart]

theorem filter_own_acting (steps : List Step) (b i : ℕ) :
    (steps.filter acting).filter (own b i) = steps.filter (own b i) := by
  rw [List.filter_filter]
  apply List.filter_congr
  intro st _
  cases hs : st.subject with
  | none => simp [own, ofCell, hs]
  | some k => simp [acting, hs]

theorem finds_entries (attempts : List Attempt)
    (hmap : attempts.map Prod.fst = (containerSteps shouldRetry (current.apps.find? a)
      (target.apps.find? a)).filter acting) :
    Meets advance (Finds current) attempts current := by
  apply meets_of_split
  rintro pre ⟨st,r⟩ post hsplit
  cases st with
  | startStoppedContainer b i id =>
    rw [hsplit, List.map_append, List.map_cons] at hmap
    have hmem : Step.startStoppedContainer b i id ∈ (containerSteps shouldRetry
        (current.apps.find? a) (target.apps.find? a)).filter acting := by
      rw [← hmap]
      simp
    obtain rfl : b = a := Option.some.inj
      (containerSteps_ofContainer shouldRetry a _ (List.mem_of_mem_filter hmem)).1
    have hcell := congrArg (List.filter (own b i)) hmap
    rw [filter_own_acting, filter_containerSteps_cell, List.filter_append, List.filter_cons,
      if_pos (by simp [own, ofCell, Step.subject])] at hcell
    -- a step before the restart would leave it in the tail
    have hfirst : (pre.map Prod.fst).filter (own b i) = [] := by
      cases hpre : (pre.map Prod.fst).filter (own b i) with
      | nil => rfl
      | cons st rest =>
        have htail := cellSteps_tail shouldRetry (a := b) i (current.apps.find? b)
          (target.apps.find? b) (.startStoppedContainer b i id)
        rw [← hcell, hpre] at htail
        have hfalse := htail (by simp)
        cases hfalse
    have hown : pre.filter (ofCell subjectOf (b,i)) = [] := by
      apply List.map_eq_nil_iff.mp
      rw [← hfirst]
      exact (List.filter_map (f := Prod.fst) (p := own b i) (l := pre)).symm
    show view (executeSteps current pre) b i = view current b i
    have hl := getService_eq (executeSteps current pre) b i
    rw [executeSteps_entries, hown] at hl
    exact hl.trans (getService_eq current b i).symm
  | _ => trivial

theorem mem_remaining (attempts : List Attempt)
    (hmap : (attempts.map Prod.fst).filter acting = (containerSteps shouldRetry
      (current.apps.find? a) (target.apps.find? a)).filter acting) (svc : ContainerService) :
    svc ∈ remaining current a attempts ↔
      (svc ∈ servicesOf (current.apps.find? a) ∧ ∃ id, container svc = some id ∧
        ¬∃ st ∈ containerSteps shouldRetry (current.apps.find? a) (target.apps.find? a),
          dropsId (view current) id st) ∨
      ∃ st ∈ containerSteps shouldRetry (current.apps.find? a) (target.apps.find? a),
        creates (view current) svc st := by
  have hfst : (attempts.filter (fun x => acting x.1)).map Prod.fst =
      (containerSteps shouldRetry (current.apps.find? a) (target.apps.find? a)).filter acting := by
    rw [← hmap]
    exact (List.filter_map (f := Prod.fst) (p := acting) (l := attempts)).symm
  have hdrops : ∀ id, (∀ st ∈ (containerSteps shouldRetry (current.apps.find? a)
        (target.apps.find? a)).filter acting, ¬dropsId (view current) id st) ↔
      ¬∃ st ∈ containerSteps shouldRetry (current.apps.find? a) (target.apps.find? a),
        dropsId (view current) id st := by
    intro id
    constructor
    · rintro h ⟨st,hst,hd⟩
      exact h st (List.mem_filter.mpr ⟨hst,drops_acting hd⟩) hd
    · intro h st hst hd
      exact h ⟨st,List.mem_of_mem_filter hst,hd⟩
  unfold remaining
  rw [run_perform_acting, run_perform current _ _ _ (finds_entries shouldRetry _ hfst), hfst,
    mem_services_run]
  apply or_congr
  · simp only [hdrops]
  · constructor
    · rintro ⟨st,hst,hc⟩
      exact ⟨st,List.mem_of_mem_filter hst,hc⟩
    · rintro ⟨st,hst,hc⟩
      exact ⟨st,List.mem_filter.mpr ⟨hst,creates_acting hc⟩,hc⟩

end App

end Iotistica.ContainerTurnover
