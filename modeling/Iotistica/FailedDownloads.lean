import Iotistica.ContainerExecutor
import Iotistica.ContainerCells

/-!
# Updates whose download fails

An update is planned as four steps in a row: download, stop, remove, start.
The executor goes on after a failure, so a failed download keeps the old
container only if Docker refuses its stop and its removal as well.
-/

set_option autoImplicit false

namespace Iotistica.FailedDownloads
open Iotistica Iotistica.CellRun Iotistica.ContainerState Iotistica.ContainerPlanner
  Iotistica.ContainerExecutor Iotistica.ContainerCells

def outcomes : DeviceState → List Attempt → List (Step × Option String)
  | _, [] => []
  | s, x::attempts => (x.1,(executeStep s x).2)::outcomes (advance s x) attempts

def passOutcomes (shouldRetry : String → Bool) (replies : ℕ → Reply)
    (current target : DeviceState) : List (Step × Option String) :=
  outcomes current (answered replies (calculateSteps shouldRetry current target))

def UpdateAt (plan : List Step) (a i n : ℕ) : Prop :=
  ∃ before rest id service, before.length = n ∧ service.serviceId = i ∧
    plan = before++(.downloadImage a service.imageName::.stopContainer a i id::
      .removeContainer a i id::.startContainer a service::rest)

def Step.takesDown (a i : ℕ) : Step → Bool
  | .stopContainer b j _ => b = a ∧ j = i
  | .removeContainer b j _ => b = a ∧ j = i
  | _ => false

def DownloadFailed (plan : List Step) (pass : List (Step × Option String)) (a i : ℕ) : Prop :=
  ∃ n, UpdateAt plan a i n ∧ ∃ step e, pass[n]? = some (step,some e)

def TakenDown (pass : List (Step × Option String)) (a i : ℕ) : Prop :=
  ∃ o ∈ pass, Step.takesDown a i o.1 = true ∧ o.2 = none

def FailsDownload (r : Reply) : Prop := r.allowed = false ∨ ∃ e, r.call = .error e

def Refuses (r : Reply) : Prop := ∃ e, r.call = .error e

theorem download_error (s : DeviceState) (a : ℕ) (image : String) (r : Reply) :
    (∃ e, (executeStep s (.downloadImage a image,r)).2 = some e) ↔ FailsDownload r := by
  unfold FailsDownload
  change (∃ e, (if r.allowed then report s r.call
    else (s,some ("Max retries exceeded for "++image))).2 = some e) ↔ _
  cases hallowed : r.allowed with
  | false => simp
  | true => cases hcall : r.call <;> simp [report]

theorem takesDown_error (s : DeviceState) {a i : ℕ} {step : Step} (r : Reply)
    (h : Step.takesDown a i step = true) :
    (executeStep s (step,r)).2 ≠ none ↔ Refuses r := by
  unfold Refuses
  cases step with
  | stopContainer b j id =>
    change (afterCall r s _).2 ≠ none ↔ _
    unfold afterCall
    cases hcall : r.call <;> simp
  | removeContainer b j id =>
    change (afterCall r s _).2 ≠ none ↔ _
    unfold afterCall
    cases hcall : r.call <;> simp
  | _ => cases h

theorem getElem?_outcomes (s : DeviceState) (attempts : List Attempt) (n : ℕ) :
    (outcomes s attempts)[n]? = attempts[n]?.map
      (fun x => (x.1,(executeStep (executeSteps s (attempts.take n)) x).2)) := by
  induction attempts generalizing s n with
  | nil => rfl
  | cons x attempts ih =>
    cases n with
    | zero => rfl
    | succ n => exact ih (advance s x) n

theorem getElem?_answered (replies : ℕ → Reply) (plan : List Step) (n : ℕ) :
    (answered replies plan)[n]? = plan[n]?.map (fun step => (step,replies n)) := by
  unfold answered
  rw [List.getElem?_map, List.getElem?_zipIdx, Option.map_map]
  simp [Function.comp_def]

theorem getElem?_pass (s : DeviceState) (replies : ℕ → Reply) (plan : List Step) (n : ℕ) :
    ∃ s', (outcomes s (answered replies plan))[n]? =
      plan[n]?.map (fun step => (step,(executeStep s' (step,replies n)).2)) := by
  refine ⟨executeSteps s ((answered replies plan).take n),?_⟩
  rw [getElem?_outcomes, getElem?_answered, Option.map_map]
  rfl

theorem takenDown_iff (s : DeviceState) (replies : ℕ → Reply) (plan : List Step) (a i : ℕ) :
    TakenDown (outcomes s (answered replies plan)) a i ↔
      ∃ n, ∃ step ∈ plan[n]?, Step.takesDown a i step = true ∧ ¬Refuses (replies n) := by
  unfold TakenDown
  constructor
  · rintro ⟨o,ho,htakes,herror⟩
    obtain ⟨n,hn⟩ := List.mem_iff_getElem?.mp ho
    obtain ⟨s',hs'⟩ := getElem?_pass s replies plan n
    rw [hs'] at hn
    obtain ⟨step,hstep,rfl⟩ := Option.map_eq_some_iff.mp hn
    refine ⟨n,step,hstep,htakes,?_⟩
    intro hrefuses
    exact (takesDown_error s' (replies n) htakes).mpr hrefuses herror
  · rintro ⟨n,step,hstep,htakes,hcall⟩
    obtain ⟨s',hs'⟩ := getElem?_pass s replies plan n
    rw [Option.mem_def.mp hstep, Option.map_some] at hs'
    refine ⟨_,List.mem_iff_getElem?.mpr ⟨n,hs'⟩,htakes,?_⟩
    by_contra herror
    exact hcall ((takesDown_error s' (replies n) htakes).mp herror)

theorem own_iff (a i : ℕ) (step : Step) : own a i step = true ↔ step.subject = some (a,i) := by
  simp [own, ofCell]

theorem subject_of_takesDown {a i : ℕ} {step : Step} (h : Step.takesDown a i step = true) :
    step.subject = some (a,i) := by
  cases step with
  | stopContainer b j id =>
    have hcell : b = a ∧ j = i := of_decide_eq_true h
    rw [hcell.1, hcell.2]
    rfl
  | removeContainer b j id =>
    have hcell : b = a ∧ j = i := of_decide_eq_true h
    rw [hcell.1, hcell.2]
    rfl
  | _ => cases h

theorem serviceOps_length (shouldRetry : String → Bool) (a i : ℕ)
    (current target : Option ContainerService) :
    (serviceOps shouldRetry a i current target).length ≤ 3 := by
  have htransition : ∀ id from' to', (transitionSteps a i id from' to').length ≤ 3 := by
    intro id from' to'
    cases from' <;> cases to' <;> simp [transitionSteps]
  cases current with
  | none =>
    cases target with
    | none => simp [serviceOps]
    | some t =>
      simp only [serviceOps]
      split <;> simp
  | some c =>
    cases target with
    | none =>
      simp only [serviceOps, removeSteps]
      split <;> simp
    | some t =>
      simp only [serviceOps]
      split
      · simp
      · split
        · split <;> simp
        · exact htransition _ _ _

theorem cellSteps_length {shouldRetry : String → Bool} {a i : ℕ} {current target : Option DeviceApp}
    {id : String} {service : ContainerService}
    (hstop : .stopContainer a i id ∈ cellSteps shouldRetry a i current target)
    (hstart : .startContainer a service ∈ cellSteps shouldRetry a i current target) :
    (cellSteps shouldRetry a i current target).length ≤ 3 := by
  cases current with
  | none =>
    cases target with
    | none => cases hstop
    | some targetApp =>
      obtain ⟨svc,-,hsvc⟩ := List.mem_flatMap.mp hstop
      split at hsvc <;> simp at hsvc
  | some currentApp =>
    cases target with
    | none =>
      obtain ⟨svc,-,hsvc⟩ := List.mem_flatMap.mp hstart
      unfold removeSteps at hsvc
      split at hsvc <;> simp at hsvc
    | some targetApp => exact serviceOps_length _ _ _ _ _

/-- Before and after the update of a service the plan has no step of its own
for it. -/
theorem update_alone {shouldRetry : String → Bool} {current target : DeviceState} {a i : ℕ}
    {before rest : List Step} {id : String} {service : ContainerService}
    (hid : service.serviceId = i)
    (hplan : calculateSteps shouldRetry current target =
      before++(.downloadImage a service.imageName::.stopContainer a i id::
        .removeContainer a i id::.startContainer a service::rest)) :
    before.filter (own a i) = [] ∧ rest.filter (own a i) = [] := by
  have hfilter := filter_calculateSteps_cell shouldRetry current target a i
  have hdownload : own a i (.downloadImage a service.imageName) = false := rfl
  have hstop : own a i (.stopContainer a i id) = true := (own_iff a i _).mpr rfl
  have hremove : own a i (.removeContainer a i id) = true := (own_iff a i _).mpr rfl
  have hstart : own a i (.startContainer a service) = true := by
    rw [own_iff, ← hid]
    rfl
  rw [hplan, List.filter_append, List.filter_cons_of_neg (ne_true_of_eq_false hdownload),
    List.filter_cons_of_pos hstop, List.filter_cons_of_pos hremove,
    List.filter_cons_of_pos hstart] at hfilter
  have hmem : .stopContainer a i id ∈
        cellSteps shouldRetry a i (current.apps.find? a) (target.apps.find? a) ∧
      .startContainer a service ∈
        cellSteps shouldRetry a i (current.apps.find? a) (target.apps.find? a) := by
    rw [← hfilter]
    simp
  have hlen := cellSteps_length hmem.1 hmem.2
  rw [← hfilter] at hlen
  simp only [List.length_append, List.length_cons] at hlen
  exact ⟨List.length_eq_zero_iff.mp (by omega),List.length_eq_zero_iff.mp (by omega)⟩

theorem takesDown_position {shouldRetry : String → Bool} {current target : DeviceState}
    {a i n m : ℕ} {step : Step}
    (hupdate : UpdateAt (calculateSteps shouldRetry current target) a i n)
    (hstep : (calculateSteps shouldRetry current target)[m]? = some step)
    (htakes : Step.takesDown a i step = true) : m = n+1 ∨ m = n+2 := by
  obtain ⟨before,rest,id,service,rfl,hid,hplan⟩ := hupdate
  obtain ⟨hbefore,hrest⟩ := update_alone hid hplan
  have hown : own a i step = true := (own_iff a i step).mpr (subject_of_takesDown htakes)
  rw [hplan] at hstep
  rcases Nat.lt_or_ge m before.length with hlt | hge
  · rw [List.getElem?_append_left hlt] at hstep
    exact absurd hown (List.filter_eq_nil_iff.mp hbefore step (List.mem_of_getElem? hstep))
  · rw [List.getElem?_append_right hge] at hstep
    obtain ⟨k,rfl⟩ := Nat.exists_eq_add_of_le hge
    rw [Nat.add_sub_cancel_left] at hstep
    match k with
    | 0 =>
      obtain rfl := Option.some.inj hstep
      cases htakes
    | 1 => exact Or.inl rfl
    | 2 => exact Or.inr rfl
    | 3 =>
      obtain rfl := Option.some.inj hstep
      cases htakes
    | k+4 =>
      have hnone := List.filter_eq_nil_iff.mp hrest step (List.mem_of_getElem? hstep)
      exact absurd hown hnone

/-- A service in both states, in the same lifecycle state, whose container
runs another image than the target asks for. -/
structure Replaced (current target : DeviceState) (a i : ℕ) : Prop where
  both : ∃ currentApp ∈ current.apps.find? a, ∃ targetApp ∈ target.apps.find? a,
    ∃ c ∈ mapGet currentApp.services i, ∃ t ∈ mapGet targetApp.services i,
      (container c).isSome ∧ desiredState c = desiredState t ∧ imageChanged c t = true

theorem infix_flatMap {α β : Type} {x : α} {xs : List α} (f : α → List β) (h : x ∈ xs) :
    f x <:+: xs.flatMap f := by
  obtain ⟨before,after,rfl⟩ := List.append_of_mem h
  refine ⟨before.flatMap f,after.flatMap f,?_⟩
  rw [List.flatMap_append, List.flatMap_cons, List.append_assoc]

theorem serviceSteps_replaced (shouldRetry : String → Bool) (a i : ℕ) {c t : ContainerService}
    {id : String} (hid : container c = some id) (hstate : desiredState c = desiredState t)
    (himage : imageChanged c t = true) :
    serviceSteps shouldRetry a a i (some c) (some t) =
      [.downloadImage a t.imageName,.stopContainer a i id,.removeContainer a i id,
        .startContainer a t] := by
  have hneeds : needsUpdate c t = true := by
    unfold needsUpdate
    rw [himage]
    rfl
  simp only [serviceSteps, hid, hstate, if_true, updateSteps, hneeds, himage]
  rfl

/-- The plan updates such a service. -/
theorem updateAt_of_replaced (shouldRetry : String → Bool) {current target : DeviceState} {a i : ℕ}
    (h : Replaced current target a i) :
    ∃ n, UpdateAt (calculateSteps shouldRetry current target) a i n := by
  obtain ⟨currentApp,hcurrent,targetApp,htarget,c,hc,t,ht,hid,hstate,himage⟩ := h.both
  obtain ⟨id,hid⟩ := Option.isSome_iff_exists.mp hid
  have happs := mem_find? hcurrent
  have happt := mem_find? htarget
  have hservice := serviceSteps_replaced shouldRetry a i hid hstate himage
  have hids : i ∈ (currentApp.services.map ContainerService.serviceId++
      targetApp.services.map ContainerService.serviceId).eraseDups := by
    rw [List.mem_eraseDups, List.mem_append]
    left
    have hmem := findService_mem hc
    exact List.mem_map.mpr ⟨c,List.mem_reverse.mp hmem,findService_id hc⟩
  have happ : a ∈ (current.apps.keys++target.apps.keys).eraseDups := by
    rw [List.mem_eraseDups, List.mem_append]
    left
    by_contra hnone
    rw [KeyedRecords.find?_none_iff.mpr hnone] at hcurrent
    cases hcurrent
  have hupdate : [.downloadImage a t.imageName,.stopContainer a i id,.removeContainer a i id,
      .startContainer a t] <:+: planStepsToUpdateApp shouldRetry currentApp targetApp := by
    have hinner := infix_flatMap (fun j => serviceSteps shouldRetry a a j
      (mapGet currentApp.services j) (mapGet targetApp.services j)) hids
    rw [Option.mem_def.mp hc, Option.mem_def.mp ht, hservice] at hinner
    unfold planStepsToUpdateApp
    simp only [happs, happt]
    exact hinner
  have happSteps : planStepsToUpdateApp shouldRetry currentApp targetApp <:+:
      appSteps shouldRetry a (some currentApp) (some targetApp) := by
    unfold appSteps
    rw [List.append_assoc _ _ (List.filter Step.isRemove _)]
    exact ⟨_,_,rfl⟩
  have hplan := infix_flatMap (fun b => appSteps shouldRetry b (current.apps.find? b)
    (target.apps.find? b)) happ
  rw [Option.mem_def.mp hcurrent, Option.mem_def.mp htarget] at hplan
  obtain ⟨before,after,hsplit⟩ := (hupdate.trans happSteps).trans hplan
  refine ⟨before.length,before,after,id,t,rfl,findService_id ht,?_⟩
  unfold calculateSteps
  rw [← hsplit, List.append_assoc]
  rfl

theorem downloadFailed_iff (s : DeviceState) (replies : ℕ → Reply) (plan : List Step) (a i : ℕ) :
    DownloadFailed plan (outcomes s (answered replies plan)) a i ↔
      ∃ n, UpdateAt plan a i n ∧ FailsDownload (replies n) := by
  unfold DownloadFailed
  apply exists_congr
  intro n
  apply and_congr_right
  rintro ⟨before,rest,id,service,rfl,-,hplan⟩
  obtain ⟨s',hs'⟩ := getElem?_pass s replies plan before.length
  have hstep : plan[before.length]? = some (.downloadImage a service.imageName) := by
    rw [hplan, List.getElem?_append_right (Nat.le_refl _), Nat.sub_self]
    rfl
  rw [hs', hstep, ← download_error s' a service.imageName]
  simp

/-- Where a service is updated, its old container survives a failed download
exactly if its stop and its removal are refused too. -/
theorem old_container_kept_iff (shouldRetry : String → Bool) (replies : ℕ → Reply)
    (current target : DeviceState) (a i : ℕ) :
    (DownloadFailed (calculateSteps shouldRetry current target)
        (passOutcomes shouldRetry replies current target) a i →
      ¬TakenDown (passOutcomes shouldRetry replies current target) a i) ↔
    ∀ n, UpdateAt (calculateSteps shouldRetry current target) a i n →
      FailsDownload (replies n) → Refuses (replies (n+1)) ∧ Refuses (replies (n+2)) := by
  unfold passOutcomes
  rw [downloadFailed_iff, takenDown_iff]
  constructor
  · intro hkept n hupdate hfails
    have hnone := hkept ⟨n,hupdate,hfails⟩
    obtain ⟨before,rest,id,service,rfl,-,hplan⟩ := hupdate
    constructor
    · by_contra hstop
      refine hnone ⟨before.length+1,.stopContainer a i id,?_,by simp [Step.takesDown],hstop⟩
      rw [hplan, List.getElem?_append_right (Nat.le_add_right _ 1), Nat.add_sub_cancel_left]
      rfl
    · by_contra hremove
      refine hnone ⟨before.length+2,.removeContainer a i id,?_,by simp [Step.takesDown],hremove⟩
      rw [hplan, List.getElem?_append_right (Nat.le_add_right _ 2), Nat.add_sub_cancel_left]
      rfl
  · rintro hcond ⟨n,hupdate,hfails⟩ ⟨m,step,hstep,htakes,hcall⟩
    obtain ⟨hstop,hremove⟩ := hcond n hupdate hfails
    rcases takesDown_position hupdate hstep htakes with rfl | rfl
    · exact hcall hstop
    · exact hcall hremove

def webOf (image : String) : ContainerService :=
  ⟨2,"web",image,1,"shop",some .running,{},some "c0de",some "running",none,none⟩

def shopOf (image : String) : DeviceState :=
  ⟨KeyedRecords.empty.put (⟨1,"shop",none,[webOf image]⟩ : DeviceApp)⟩

def pullFails (n : ℕ) : Reply :=
  ⟨true,if n = 0 then .error "no space left on device" else .ok (),.ok "beef",.ok ()⟩

/-- The pull of the new image fails; the old container is stopped and removed
all the same. -/
theorem old_shop_taken_down :
    ¬∀ (shouldRetry : String → Bool) (replies : ℕ → Reply) (current target : DeviceState)
      (a i : ℕ),
      DownloadFailed (calculateSteps shouldRetry current target)
        (passOutcomes shouldRetry replies current target) a i →
      ¬TakenDown (passOutcomes shouldRetry replies current target) a i := by
  intro hclaim
  have hplan : calculateSteps (fun _ => true) (shopOf "web:1") (shopOf "web:2") =
      [.downloadImage 1 "web:2",.stopContainer 1 2 "c0de",.removeContainer 1 2 "c0de",
        .startContainer 1 (webOf "web:2")] := by
    decide +kernel
  have hkept := hclaim (fun _ => true) pullFails (shopOf "web:1") (shopOf "web:2") 1 2
  unfold passOutcomes at hkept
  rw [downloadFailed_iff, takenDown_iff, hplan] at hkept
  refine hkept ⟨0,⟨[],[],"c0de",webOf "web:2",rfl,rfl,rfl⟩,Or.inr ⟨_,rfl⟩⟩
    ⟨1,.stopContainer 1 2 "c0de",rfl,by decide,?_⟩
  rintro ⟨e,he⟩
  cases he

theorem updateAt_of_replaced_shop :
    ∃ n, UpdateAt (calculateSteps (fun _ => true) (shopOf "web:1") (shopOf "web:2")) 1 2 n :=
  updateAt_of_replaced (fun _ => true)
    ⟨_,rfl,_,rfl,webOf "web:1",rfl,webOf "web:2",rfl,rfl,rfl,by decide⟩

end Iotistica.FailedDownloads
