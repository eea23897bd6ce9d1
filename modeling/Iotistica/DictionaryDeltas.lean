import Iotistica.DictionaryAgent
import Iotistica.DictionaryCloud
import Iotistica.GuardedRun

/-!
# Delta syncs

After a full sync the agent goes on discovering fields and publishes them
as deltas, which reach the cloud once and in order. A delta carries the
version of the full sync, because no discovery and no sync moves
`dictionaryVersion`, and the cloud asks for a greater one: every delta that
arrives is refused.
-/

set_option autoImplicit false

namespace Iotistica.DictionaryDeltas
open Iotistica Iotistica.AgentDictionary Iotistica.CloudDictionary Iotistica.GuardedRun

structure Link where
  agent : Agent
  channel : List DeltaPayload
  cloud : Cloud

inductive Event where
  | discover (fieldName : String) (fault : Option Fault)
  | promote
  | publish
  | deliver

def step (s : Link) : Event → Link
  | .discover fieldName fault => { s with agent := (getIndex s.agent fieldName fault).2 }
  | .promote => { s with agent := { s.agent with hasUnsyncedEnumPromotions := true } }
  | .publish =>
    let result := syncDeltaDictionary s.agent
    { s with agent := result.2, channel := s.channel++result.1.toList }
  | .deliver =>
    match s.channel with
    | [] => s
    | delta::rest =>
      { s with channel := rest, cloud := (applyDelta s.cloud delta.newFields delta.version).1 }

/-- The two sides after the full sync of `a` was published and stored. -/
def synced (a : Agent) (c : Cloud) (p : FullPayload) : Link :=
  ⟨(syncFullDictionary a).2,[],storeDictionary c (.names p.fields) p.version⟩

def EqualSides (s : Link) : Prop :=
  ∃ m, (getDictionary s.cloud).1 = some m ∧
    ∀ d f i, (s.agent.domains d).get? f = some i → ∀ j, m.get? j = some f ↔ j = i

/-- A delta that arrives is accepted, and when none is outstanding then the
sides are equal. -/
def Applied (s : Link) (e : Event) : Prop :=
  e = .deliver → ∀ delta ∈ s.channel.head?,
    (applyDelta s.cloud delta.newFields delta.version).2 = .accepted ∧
      ((step s e).channel = [] → getUnsyncedDeltas (step s e).agent.db = [] →
        EqualSides (step s e))

def NoArrival (s : Link) (e : Event) : Prop := e = .deliver → s.channel = []

theorem getIndex_dictionaryVersion (a : Agent) (f : String) (fault : Option Fault) :
    (getIndex a f fault).2.dictionaryVersion = a.dictionaryVersion := by
  unfold getIndex
  split
  · rfl
  · split <;> rfl

theorem syncDeltaDictionary_version (a : Agent) :
    (syncDeltaDictionary a).2.dictionaryVersion = a.dictionaryVersion ∧
      ∀ p ∈ (syncDeltaDictionary a).1, p.version = a.dictionaryVersion := by
  unfold syncDeltaDictionary
  split
  · exact ⟨rfl,fun p hp => by cases hp⟩
  · dsimp only
    split
    · exact ⟨rfl,fun p hp => by cases hp⟩
    · refine ⟨rfl,fun p hp => ?_⟩
      rw [← Option.mem_some.mp hp]

theorem syncFullDictionary_version {a : Agent} {p : FullPayload}
    (h : (syncFullDictionary a).1 = some p) :
    p.version = a.dictionaryVersion ∧
      (syncFullDictionary a).2.dictionaryVersion = a.dictionaryVersion := by
  unfold syncFullDictionary at h ⊢
  split at h
  · cases h
  · split at h
    · cases h
    · rename_i h₁ h₂
      rw [if_neg h₁, if_neg h₂]
      exact ⟨congrArg FullPayload.version (Option.some.inj h).symm,rfl⟩

/-- The cloud holds a map under version `v`, and every delta on its way
carries `v`. -/
structure Refusing (v : ℕ) (s : Link) : Prop where
  agent : s.agent.dictionaryVersion = v
  channel : ∀ p ∈ s.channel, p.version = v
  dict : ∃ m, s.cloud.dict = some m
  version : s.cloud.version = some v

theorem Refusing.applyDelta {v : ℕ} {s : Link} (h : Refusing v s) (newFields : List String) :
    applyDelta s.cloud newFields v = (s.cloud,.violation) := by
  obtain ⟨m,hm⟩ := h.dict
  have hg : getDictionary s.cloud = (some m,s.cloud) := by
    unfold getDictionary
    rw [hm]
  have hv : violates s.cloud.version v = true := by
    rw [h.version]
    simp [violates]
  unfold CloudDictionary.applyDelta
  rw [hg]
  simp only [hv, if_true]

theorem refusing_synced {a : Agent} {p : FullPayload} (c : Cloud)
    (h : (syncFullDictionary a).1 = some p) : Refusing a.dictionaryVersion (synced a c p) := by
  obtain ⟨hp,ha⟩ := syncFullDictionary_version h
  obtain ⟨hd,hv⟩ := storeDictionary_redis c (.names p.fields) p.version
  exact ⟨ha,fun q hq => (List.not_mem_nil hq).elim,⟨_,hd⟩,hp ▸ hv⟩

theorem Refusing.step {v : ℕ} {s : Link} (h : Refusing v s) (e : Event) :
    Refusing v (step s e) := by
  cases e with
  | discover f fault =>
    exact ⟨(getIndex_dictionaryVersion s.agent f fault).trans h.agent,h.channel,h.dict,h.version⟩
  | promote => exact ⟨h.agent,h.channel,h.dict,h.version⟩
  | publish =>
    obtain ⟨ha,hp⟩ := syncDeltaDictionary_version s.agent
    refine ⟨ha.trans h.agent,fun p hm => ?_,h.dict,h.version⟩
    rcases List.mem_append.mp hm with hold | hnew
    · exact h.channel p hold
    · exact (hp p (Option.mem_toList.mp hnew)).trans h.agent
  | deliver =>
    cases hc : s.channel with
    | nil =>
      have hs : DictionaryDeltas.step s .deliver = s := by simp [DictionaryDeltas.step, hc]
      rw [hs]
      exact h
    | cons p rest =>
      have hp : p.version = v := h.channel p (by simp [hc])
      have hs : DictionaryDeltas.step s .deliver = { s with channel := rest } := by
        simp [DictionaryDeltas.step, hc, hp, h.applyDelta]
      rw [hs]
      exact ⟨h.agent,fun q hq => h.channel q (by simp [hc, hq]),h.dict,h.version⟩

theorem Refusing.applied_iff {v : ℕ} {s : Link} (h : Refusing v s) (e : Event) :
    Applied s e ↔ NoArrival s e := by
  constructor
  · intro ha he
    cases hc : s.channel with
    | nil => rfl
    | cons p rest =>
      exfalso
      have hp : p.version = v := h.channel p (by simp [hc])
      obtain ⟨hacc,-⟩ := ha he p (by simp [hc])
      rw [hp, h.applyDelta] at hacc
      cases hacc
  · intro hn he delta hd
    rw [hn he] at hd
    cases hd

/-- From the state after a full sync, over any order of discoveries,
promotions, published deltas and arrivals: every arriving delta is applied
exactly when none arrives. -/
theorem deltas_applied_iff (a : Agent) (c : Cloud) (p : FullPayload)
    (hp : (syncFullDictionary a).1 = some p) (es : List Event) :
    Meets step Applied es (synced a c p) ↔ Meets step NoArrival es (synced a c p) := by
  have hreg : Meets step (fun s _ => Refusing a.dictionaryVersion s) es (synced a c p) := by
    apply meets_of_split
    intro pre e post _
    have hany : Meets step (fun _ _ => True) pre (synced a c p) := meets_any step pre _
    exact run_invariant (fun _ e _ h => h.step e) pre _ hany (refusing_synced c hp)
  exact meets_congr (fun s e h => h.applied_iff e) es _ hreg

def discovered : Agent := (getIndex (.fresh .fresh) "temperature" none).2

theorem deltas_not_applied_after_discovery :
    (syncFullDictionary discovered).1 = some ⟨1,["temperature"]⟩ ∧
    ¬ Meets step Applied [.discover "pressure" none,.publish,.deliver]
      (synced discovered .fresh ⟨1,["temperature"]⟩) := by
  refine ⟨by decide +kernel,fun h => ?_⟩
  have hd := h.2.2.1 rfl ⟨1,["temperature","pressure"]⟩ (by decide +kernel)
  have hr := hd.1
  revert hr
  decide +kernel

theorem no_delta_no_arrival :
    (syncFullDictionary discovered).1 = some ⟨1,["temperature"]⟩ ∧
    (Meets step Applied [.discover "pressure" none] (synced discovered .fresh ⟨1,["temperature"]⟩) ↔
      Meets step NoArrival [.discover "pressure" none]
        (synced discovered .fresh ⟨1,["temperature"]⟩)) :=
  ⟨by decide +kernel,deltas_applied_iff discovered .fresh _ (by decide +kernel) _⟩

end Iotistica.DictionaryDeltas
