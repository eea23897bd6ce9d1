import Iotistica.ContainerPlanner

/-!
# When the planner sees no difference

Lists agree up to order, an environment agrees when it gives every variable
of the target its value, and a setting agrees when the target leaves it
unset or both fall back to the same text.
-/

set_option autoImplicit false

namespace Iotistica.ContainerComparison
open Iotistica Iotistica.JsText Iotistica.ContainerState Iotistica.ContainerPlanner

theorem listChanged_iff (current target : Option (List String)) :
    listChanged current target = false ↔ (current.getD []).Perm (target.getD []) := by
  unfold listChanged
  rw [bne_eq_false_iff_eq]
  exact JsSort.sort_eq_iff _ _

/-- The copy restricted to the target's variables has as many entries as
the target only if none of them is missing. -/
theorem filterMap_keys_iff {κ β : Type} (look : κ → Option β) (es : List (κ × β)) :
    (es.map Prod.fst).filterMap (fun k => (look k).map (fun v => (k,v))) = es ↔
      ∀ p ∈ es, look p.1 = some p.2 := by
  induction es with
  | nil => simp
  | cons p es ih =>
    cases hl : look p.1 with
    | none =>
      have hdrop : ((p::es).map Prod.fst).filterMap (fun k => (look k).map (fun v => (k,v))) =
          (es.map Prod.fst).filterMap (fun k => (look k).map (fun v => (k,v))) := by
        simp [hl]
      rw [hdrop]
      constructor
      · intro h
        have hlen := List.length_filterMap_le (fun k => (look k).map (fun v => (k,v)))
          (es.map Prod.fst)
        rw [h, List.length_cons, List.length_map] at hlen
        omega
      · intro h
        have hp := h p (by simp)
        rw [hl] at hp
        cases hp
    | some v =>
      have hkeep : ((p::es).map Prod.fst).filterMap (fun k => (look k).map (fun v => (k,v))) =
          (p.1,v)::(es.map Prod.fst).filterMap (fun k => (look k).map (fun v => (k,v))) := by
        simp [hl]
      rw [hkeep, List.cons.injEq, ih, List.forall_mem_cons, hl, Option.some.injEq]
      have hpair : (p.1,v) = p ↔ v = p.2 := by
        constructor
        · intro h
          rw [← h]
        · intro h
          rw [h]
      rw [hpair]

theorem envChanged_iff (current target : Option (OrderedMap String String)) :
    envChanged current target = false ↔
      ∀ p ∈ (target.getD OrderedMap.empty).entries,
        current.bind (fun env => env.get? p.1) = some p.2 := by
  unfold envChanged
  rw [bne_eq_false_iff_eq]
  exact filterMap_keys_iff _ _

theorem settingChanged_iff (default : String) (current target : Option String) :
    settingChanged default current target = false ↔
      (target.isSome → orElse current default = orElse target default) := by
  unfold settingChanged
  cases target <;> simp

structure ConfigAgrees (current target : ServiceConfig) : Prop where
  ports : (current.ports.getD []).Perm (target.ports.getD [])
  environment : ∀ p ∈ (target.environment.getD OrderedMap.empty).entries,
    current.environment.bind (fun env => env.get? p.1) = some p.2
  volumes : (current.volumes.getD []).Perm (target.volumes.getD [])
  networks : (current.networks.getD []).Perm (target.networks.getD [])
  restart : target.restart.isSome → orElse current.restart "no" = orElse target.restart "no"
  networkMode : target.networkMode.isSome →
    orElse current.networkMode "bridge" = orElse target.networkMode "bridge"

theorem configChanged_iff (current target : ServiceConfig) :
    configChanged current target = false ↔ ConfigAgrees current target := by
  unfold configChanged
  simp only [Bool.or_eq_false_iff, listChanged_iff, envChanged_iff, settingChanged_iff]
  constructor
  · intro h
    exact ⟨h.1.1.1.1.1,h.1.1.1.1.2,h.1.1.1.2,h.1.1.2,h.1.2,h.2⟩
  · intro h
    exact ⟨⟨⟨⟨⟨h.ports,h.environment⟩,h.volumes⟩,h.networks⟩,h.restart⟩,h.networkMode⟩

theorem needsUpdate_iff (current target : ContainerService) :
    needsUpdate current target = false ↔
      current.imageName = target.imageName ∧ ConfigAgrees current.config target.config ∧
        containerStopped current = false := by
  unfold needsUpdate imageChanged
  simp only [Bool.or_eq_false_iff, bne_eq_false_iff_eq, configChanged_iff, and_assoc]

theorem configAgrees_refl (config : ServiceConfig) : ConfigAgrees config config := by
  refine ⟨List.Perm.refl _,?_,List.Perm.refl _,List.Perm.refl _,fun _ => rfl,fun _ => rfl⟩
  intro p hp
  cases he : config.environment with
  | none =>
    rw [he] at hp
    cases hp
  | some env =>
    rw [he] at hp
    exact OrderedMap.get?_of_mem hp

theorem containerStopped_running (service : ContainerService)
    (h : service.status = some "running") : containerStopped service = false := by
  unfold containerStopped
  rw [h]
  decide

theorem needsUpdate_started (service : ContainerService) (id : String) :
    needsUpdate (started service id) service = false :=
  (needsUpdate_iff _ _).mpr
    ⟨rfl,configAgrees_refl service.config,containerStopped_running _ rfl⟩

end Iotistica.ContainerComparison
