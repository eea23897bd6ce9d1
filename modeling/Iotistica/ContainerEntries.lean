import Iotistica.ContainerExecutor

/-!
# Every entry of a service, whatever Docker answers

A state may hold several entries of one service. Each step acts on the
list of entries of its service alone, for every reply: a lookup finds the
first, a removal drops all, a start appends one.
-/

set_option autoImplicit false

namespace Iotistica.ContainerEntries
open Iotistica Iotistica.GuardedRun Iotistica.CellRun Iotistica.ContainerState
  Iotistica.ContainerPlanner Iotistica.ContainerExecutor

def ofService (i : ℕ) (svc : ContainerService) : Bool := svc.serviceId == i

def entries (s : DeviceState) (a i : ℕ) : List ContainerService :=
  (servicesOf (s.apps.find? a)).filter (ofService i)

def entriesAt (s : DeviceState) (k : ℕ × ℕ) : List ContainerService := entries s k.1 k.2

def opened (service : ContainerService) (r : Reply) : List ContainerService :=
  (r.start.toOption.map (started service)).toList

def afterStep (xs : List ContainerService) : Attempt → List ContainerService
  | (.stopContainer _ _ _,r) => if r.call.isOk then xs.modifyHead (setState .stopped) else xs
  | (.pauseContainer _ _ _,r) => if r.call.isOk then xs.modifyHead (setState .paused) else xs
  | (.unpauseContainer _ _ _,r) => if r.call.isOk then xs.modifyHead (setState .running) else xs
  | (.startStoppedContainer _ _ _,r) =>
    match xs.head? with
    | none => xs
    | some service => if r.call.isOk then opened service r else xs
  | (.removeContainer _ _ _,r) => if r.call.isOk then [] else xs
  | (.startContainer _ service,r) => xs++opened service r
  | (_,_) => xs

theorem entries_none {s : DeviceState} {a : ℕ} (h : s.apps.find? a = none) (i : ℕ) :
    entries s a i = [] := by
  simp [entries, servicesOf, h]

theorem entries_some {s : DeviceState} {a : ℕ} {app : DeviceApp}
    (h : s.apps.find? a = some app) (i : ℕ) :
    entries s a i = app.services.filter (ofService i) := by
  simp [entries, servicesOf, h]

theorem entries_putApp (s : DeviceState) (app : DeviceApp) (a i : ℕ) :
    entries (s.putApp app) a i =
      if a = app.appId then app.services.filter (ofService i) else entries s a i := by
  unfold entries DeviceState.putApp
  rw [KeyedRecords.find?_put]
  by_cases h : a = app.appId
  · simp [h, servicesOf]
  · simp [h]

theorem entries_erase (s : DeviceState) (b a i : ℕ) :
    entries ⟨s.apps.erase b⟩ a i = if a = b then [] else entries s a i := by
  unfold entries
  simp only
  rw [KeyedRecords.find?_erase]
  by_cases h : a = b
  · simp [h, servicesOf]
  · simp [h]

theorem filter_dropped (services : List ContainerService) (j i : ℕ) :
    (services.filter (fun svc => svc.serviceId != j)).filter (ofService i) =
      if i = j then [] else services.filter (ofService i) := by
  by_cases h : i = j
  · rw [if_pos h, List.filter_filter, List.filter_eq_nil_iff]
    intro svc _
    simp [ofService, h]
  · rw [if_neg h, List.filter_filter]
    apply List.filter_congr
    intro svc _
    by_cases hs : svc.serviceId = i
    · simp [ofService, hs, h]
    · simp [ofService, hs]

theorem filter_updateFirst (services : List ContainerService) (j i : ℕ)
    (f : ContainerService → ContainerService) (hf : ∀ svc, (f svc).serviceId = svc.serviceId) :
    (updateFirst j f services).filter (ofService i) =
      if i = j then (services.filter (ofService i)).modifyHead f
      else services.filter (ofService i) := by
  induction services with
  | nil => simp [updateFirst]
  | cons svc services ih =>
    by_cases hs : svc.serviceId = j
    · by_cases hi : i = j
      · simp [updateFirst, hs, hi, ofService, hf]
      · simp [updateFirst, hs, hi, ofService, hf, Ne.symm hi]
    · by_cases hi : svc.serviceId = i
      · have hij : i ≠ j := by omega
        simp [updateFirst, hij, ofService, hi, ih]
      · simp [updateFirst, hs, ofService, hi, ih]

theorem entries_remove (s : DeviceState) (b j a i : ℕ) :
    entries (removeServiceFromCurrentState s b j) a i =
      if a = b ∧ i = j then [] else entries s a i := by
  unfold removeServiceFromCurrentState
  cases hf : s.apps.find? b with
  | none =>
    by_cases h : a = b ∧ i = j
    · rw [if_pos h, h.1]
      exact entries_none hf i
    · rw [if_neg h]
  | some app =>
    have hid := mem_find? hf
    have hdrop := filter_dropped app.services j i
    simp only
    by_cases ha : a = b
    · subst ha
      simp only [true_and, entries_some hf]
      rw [← hdrop]
      split
      · rename_i he
        rw [entries_erase, if_pos rfl, List.isEmpty_iff.mp he]
        rfl
      · rw [entries_putApp, if_pos hid.symm]
    · simp only [ha, false_and, if_false]
      split
      · rw [entries_erase, if_neg ha]
      · rw [entries_putApp, if_neg (by rw [hid]; exact ha)]

theorem entries_update (s : DeviceState) (b j : ℕ) (state : Lifecycle) (a i : ℕ) :
    entries (updateServiceState s b j state) a i =
      if a = b ∧ i = j then (entries s a i).modifyHead (setState state) else entries s a i := by
  unfold updateServiceState
  cases hf : s.apps.find? b with
  | none =>
    by_cases h : a = b ∧ i = j
    · rw [if_pos h, h.1, entries_none hf]
      rfl
    · rw [if_neg h]
  | some app =>
    have hid := mem_find? hf
    simp only
    rw [entries_putApp]
    by_cases ha : a = b
    · subst ha
      rw [if_pos hid.symm, entries_some hf, filter_updateFirst _ _ _ (setState state) (fun _ => rfl)]
      simp
    · rw [if_neg (by rw [hid]; exact ha)]
      simp [ha]

theorem entries_add (s : DeviceState) (b : ℕ) (service : ContainerService) (id : String)
    (a i : ℕ) :
    entries (addServiceToCurrentState s b service id) a i =
      if a = b ∧ i = service.serviceId then entries s a i++[started service id]
      else entries s a i := by
  unfold addServiceToCurrentState
  simp only
  rw [entries_putApp]
  have happ : ((s.apps.find? b).getD ⟨b,service.appName,none,[]⟩).appId = b ∧
      ((s.apps.find? b).getD ⟨b,service.appName,none,[]⟩).services =
        servicesOf (s.apps.find? b) := by
    cases hf : s.apps.find? b with
    | none => simp [servicesOf]
    | some app => simp [servicesOf, mem_find? hf]
  rw [happ.1, happ.2]
  by_cases ha : a = b
  · subst ha
    by_cases hi : i = service.serviceId
    · simp [hi, entries, ofService, started]
    · simp [hi, entries, ofService, Ne.symm hi]
  · simp [ha]

theorem getService_eq (s : DeviceState) (a i : ℕ) :
    getServiceFromCurrentState s a i = (entries s a i).head? := by
  unfold getServiceFromCurrentState
  cases hf : s.apps.find? a with
  | none => simp [entries_none hf]
  | some app =>
    rw [entries_some hf, List.head?_filter]
    rfl

theorem entries_start (r : Reply) (s : DeviceState) (b : ℕ) (service : ContainerService)
    (a i : ℕ) :
    entries (startService r s b service).1 a i =
      if a = b ∧ i = service.serviceId then entries s a i++opened service r
      else entries s a i := by
  unfold startService opened
  cases r.start with
  | error e => simp [Except.toOption]
  | ok id =>
    simp only
    rw [report_state, entries_add]
    rfl

theorem entries_restart (s : DeviceState) (b j : ℕ) (id : String) (r : Reply) (a i : ℕ) :
    entries (advance s (.startStoppedContainer b j id,r)) a i =
      if a = b ∧ i = j then afterStep (entries s a i) (.startStoppedContainer b j id,r)
      else entries s a i := by
  unfold advance executeStep
  simp only
  have hg := getService_eq s b j
  cases hh : (entries s b j).head? with
  | none =>
    rw [hh] at hg
    simp only [hg]
    by_cases h : a = b ∧ i = j
    · rw [if_pos h, h.1, h.2]
      simp [afterStep, hh]
    · rw [if_neg h]
  | some service =>
    rw [hh] at hg
    have hid := getService_id hg
    simp only [hg, afterCall]
    cases hc : r.call with
    | error e =>
      by_cases h : a = b ∧ i = j
      · rw [if_pos h, h.1, h.2]
        simp [afterStep, hh, hc, Except.isOk, Except.toBool]
      · rw [if_neg h]
    | ok u =>
      simp only
      rw [entries_start, entries_remove, hid]
      by_cases h : a = b ∧ i = j
      · rw [if_pos h, if_pos h, if_pos h, h.1, h.2]
        simp [afterStep, hh, hc, Except.isOk, Except.toBool]
      · rw [if_neg h, if_neg h, if_neg h]

theorem entries_record (r : Reply) (s : DeviceState) (b j : ℕ) (state : Lifecycle) (a i : ℕ) :
    entries (afterCall r s (fun s => (updateServiceState s b j state,none))).1 a i =
      if a = b ∧ i = j then
        if r.call.isOk then (entries s a i).modifyHead (setState state) else entries s a i
      else entries s a i := by
  unfold afterCall
  cases r.call with
  | error e => simp [Except.isOk, Except.toBool]
  | ok u =>
    simp only
    rw [entries_update]
    simp [Except.isOk, Except.toBool]

theorem entries_advance (s : DeviceState) (x : Attempt) (b j : ℕ)
    (hk : subjectOf x = some (b,j)) (a i : ℕ) :
    entries (advance s x) a i =
      if a = b ∧ i = j then afterStep (entries s a i) x else entries s a i := by
  obtain ⟨st,r⟩ := x
  cases st with
  | stopContainer b' j' id =>
    obtain ⟨rfl,rfl⟩ := Prod.mk.inj (Option.some.inj hk)
    exact entries_record r s b' j' .stopped a i
  | pauseContainer b' j' id =>
    obtain ⟨rfl,rfl⟩ := Prod.mk.inj (Option.some.inj hk)
    exact entries_record r s b' j' .paused a i
  | unpauseContainer b' j' id =>
    obtain ⟨rfl,rfl⟩ := Prod.mk.inj (Option.some.inj hk)
    exact entries_record r s b' j' .running a i
  | removeContainer b' j' id =>
    obtain ⟨rfl,rfl⟩ := Prod.mk.inj (Option.some.inj hk)
    show entries (afterCall r s (fun s => (removeServiceFromCurrentState s b' j',none))).1 a i = _
    cases hc : r.call with
    | error e => simp [afterCall, afterStep, hc, Except.isOk, Except.toBool]
    | ok u =>
      simp only [afterCall, hc]
      rw [entries_remove]
      simp [afterStep, hc, Except.isOk, Except.toBool]
  | startStoppedContainer b' j' id =>
    obtain ⟨rfl,rfl⟩ := Prod.mk.inj (Option.some.inj hk)
    exact entries_restart s b' j' id r a i
  | startContainer b' service =>
    obtain ⟨rfl,rfl⟩ := Prod.mk.inj (Option.some.inj hk)
    exact entries_start r s b' service a i
  | downloadImage a n => cases hk
  | createVolume a n => cases hk
  | createNetwork a n => cases hk
  | removeNetwork a n => cases hk
  | removeVolume a n => cases hk
  | noop => cases hk

theorem advance_entries :
    Simulates advance entriesAt subjectOf afterStep (fun _ _ => True) (fun _ => True) where
  idle s x _ h := by
    rw [advance_idle s x h]
    exact ⟨trivial,fun k => rfl⟩
  named s x k _ hk _ := by
    refine ⟨trivial,?_,?_⟩
    · show entries (advance s x) k.1 k.2 = _
      rw [entries_advance s x k.1 k.2 hk, if_pos ⟨rfl,rfl⟩]
      rfl
    · intro j hj
      show entries (advance s x) j.1 j.2 = _
      rw [entries_advance s x k.1 k.2 hk, if_neg (pair_ne hj)]
      rfl

/-- Whatever fails, a plan acts on the entries of each service as that
service's own steps. -/
theorem executeSteps_entries (attempts : List Attempt) (s : DeviceState) (a i : ℕ) :
    entries (executeSteps s attempts) a i =
      run afterStep (attempts.filter (ofCell subjectOf (a,i))) (entries s a i) :=
  (run_cells advance_entries attempts s trivial (fun _ => meets_any _ _ _)).2 (a,i)

end Iotistica.ContainerEntries
