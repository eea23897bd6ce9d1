import Iotistica.DictionaryAgent
import Iotistica.GuardedRun

/-!
# Stability of the agent's indices

A new index is the size of its map, so indices stay apart as long as the
map has no gaps. Fields whose write failed are missing after a restart,
and the size then points at an index that is or was in use. Runs in which
every field is in the database when the process restarts never give an
index of one field to another.
-/

set_option autoImplicit false

namespace Iotistica.AgentDictionary
open Iotistica Iotistica.GuardedRun

structure Session where
  agent : Agent
  sent : List (Domain × String × ℕ)

def Session.fresh : Session := ⟨.fresh .fresh,[]⟩

inductive IndexEvent where
  | get (fieldName : String) (fault : Option Fault)
  | restart
  | reset

def indexStep (s : Session) : IndexEvent → Session
  | .get fieldName fault =>
    let result := getIndex s.agent fieldName fault
    if result.1 = -1 then { s with agent := result.2 }
    else ⟨result.2,s.sent++[(inferDomain fieldName,fieldName,result.1.toNat)]⟩
  | .restart => { s with agent := initializeAgent s.agent.db }
  | .reset => ⟨reset s.agent,[]⟩

/-- No two fields of a domain share an index, and no index that was sent
for a field belongs to another one, in the maps or in what was sent. -/
structure Stable (s : Session) : Prop where
  distinct : ∀ d f g i, (s.agent.domains d).get? f = some i →
    (s.agent.domains d).get? g = some i → f = g
  sent_once : ∀ d f g i, (d,f,i) ∈ s.sent → (d,g,i) ∈ s.sent → f = g
  kept : ∀ d f g i, (d,f,i) ∈ s.sent → (s.agent.domains d).get? g = some i → f = g

/-- Every field of the maps is in `dictionary_entries` when the process
restarts. -/
def Persisted (s : Session) : IndexEvent → Prop
  | .restart => ∀ d ∈ allDomains, ∀ p ∈ (s.agent.domains d).entries,
      ∃ e ∈ s.agent.db.entries.rows, e.fieldName = p.1 ∧ e.fieldIndex = p.2 ∧ e.domain = d
  | _ => True

instance Persisted.decidable (s : Session) : (e : IndexEvent) → Decidable (Persisted s e)
  | .restart => inferInstanceAs (Decidable (∀ d ∈ allDomains, _))
  | .get _ _ => .isTrue trivial
  | .reset => .isTrue trivial

theorem mem_allDomains (d : Domain) : d ∈ allDomains := by cases d <;> decide

def Numbered (m : OrderedMap String ℕ) : Prop := m.entries.map Prod.snd = List.range m.size

theorem numbered_empty : Numbered .empty := rfl

theorem Numbered.add {m : OrderedMap String ℕ} (h : Numbered m) {f : String} (hf : f ∉ m.keys) :
    Numbered (m.set f m.size) := by
  have he : (m.set f m.size).entries = m.entries++[(f,m.size)] := if_neg hf
  show (m.set f m.size).entries.map Prod.snd = List.range (m.set f m.size).entries.length
  rw [he, List.map_append, h, List.length_append, List.length_singleton, List.range_succ]
  rfl

theorem Numbered.inj {m : OrderedMap String ℕ} (h : Numbered m) {f g : String} {i : ℕ}
    (hf : (f,i) ∈ m.entries) (hg : (g,i) ∈ m.entries) : f = g := by
  have hn : (m.entries.map Prod.snd).Nodup := by
    rw [h]
    exact List.nodup_range
  have heq := List.inj_on_of_nodup_map hn hf hg rfl
  exact congrArg Prod.fst heq

theorem Numbered.sorted {m : OrderedMap String ℕ} (h : Numbered m) :
    m.entries.Pairwise (fun a b => a.2 ≤ b.2) := by
  have hr : (m.entries.map Prod.snd).Pairwise (· ≤ ·) := by
    rw [h]
    exact List.pairwise_le_range
  exact List.pairwise_map.mp hr

theorem getIndex_cases (a : Agent) (f : String) (fault : Option Fault) :
    (shouldSkipField f = true ∧ getIndex a f fault = (-1,a)) ∨
    (shouldSkipField f = false ∧ ∃ i : ℕ, (a.domains (inferDomain f)).get? f = some i ∧
      getIndex a f fault = ((i : ℤ),a)) ∨
    (shouldSkipField f = false ∧ f ∉ (a.domains (inferDomain f)).keys ∧
      getIndex a f fault = (((a.domains (inferDomain f)).size : ℤ),addField a f fault)) := by
  unfold getIndex
  by_cases hs : shouldSkipField f = true
  · exact Or.inl ⟨hs,by simp [hs]⟩
  · right
    have hs' : shouldSkipField f = false := by simpa using hs
    cases hg : (a.domains (inferDomain f)).get? f with
    | some i => exact Or.inl ⟨hs',i,rfl,by simp [hs']⟩
    | none => exact Or.inr ⟨hs',OrderedMap.not_mem_keys_of_get? hg,by simp [hs']⟩

theorem entries_addField (a : Agent) (f : String) (fault : Option Fault)
    (hf : f ∉ (a.domains (inferDomain f)).keys) (d : Domain) :
    ((addField a f fault).domains d).entries =
      (a.domains d).entries++
        if d = inferDomain f then [(f,(a.domains (inferDomain f)).size)] else [] := by
  unfold addField
  by_cases hd : d = inferDomain f
  · subst hd
    simp [OrderedMap.set, hf]
  · simp [hd]

theorem numbered_addField {a : Agent} (h : ∀ d, Numbered (a.domains d)) {f : String}
    (hf : f ∉ (a.domains (inferDomain f)).keys) (fault : Option Fault) (d : Domain) :
    Numbered ((addField a f fault).domains d) := by
  by_cases hd : d = inferDomain f
  · subst hd
    have hset : (addField a f fault).domains (inferDomain f) =
        (a.domains (inferDomain f)).set f (a.domains (inferDomain f)).size :=
      Function.update_self ..
    rw [hset]
    exact (h _).add hf
  · have hset : (addField a f fault).domains d = a.domains d := Function.update_of_ne hd ..
    rw [hset]
    exact h d

theorem mem_rows_persistNewField (db : Database) (f : String) (i v : ℕ) (d : Domain)
    (fault : Option Fault) {e : Entry} (he : e ∈ (persistNewField db f i v d fault).entries.rows) :
    e ∈ db.entries.rows ∨ e = ⟨f,i,v,d⟩ := by
  have hsave : ∀ db', saveEntry db f i v d = some db' →
      db'.entries.rows = db.entries.rows++[⟨f,i,v,d⟩] := by
    intro db' h
    obtain ⟨t,ht,rfl⟩ := Option.map_eq_some_iff.mp h
    exact UniqueTable.rows_of_insert ht
  have hdelta : ∀ db₁ db₂, saveDelta db₁ f i v d = some db₂ → db₂.entries = db₁.entries := by
    intro db₁ db₂ h
    obtain ⟨t,-,rfl⟩ := Option.map_eq_some_iff.mp h
    rfl
  have hnew : ∀ db', saveEntry db f i v d = some db' → e ∈ db'.entries.rows →
      e ∈ db.entries.rows ∨ e = ⟨f,i,v,d⟩ := by
    intro db' h hm
    rw [hsave db' h] at hm
    simpa using hm
  unfold persistNewField at he
  split at he
  · exact Or.inl he
  · split at he
    · exact Or.inl he
    · rename_i db₁ h₁
      split at he
      · exact hnew db₁ h₁ he
      · split at he
        · exact hnew db₁ h₁ he
        · rename_i db₂ h₂
          split at he
          · exact hnew db₁ h₁ (hdelta db₁ db₂ h₂ ▸ he)
          · exact hnew db₁ h₁ (hdelta db₁ db₂ h₂ ▸ he)

theorem entries_loadDictionary (db : Database) (d : Domain) :
    (loadDictionary db d).entries =
      ((db.entries.rows.insertionSort (fun a b => a.fieldIndex ≤ b.fieldIndex)).filter
        (fun e => e.domain = d)).map (fun e => (e.fieldName,e.fieldIndex)) := by
  unfold loadDictionary
  rw [OrderedMap.entries_assignAll]
  · rfl
  · rw [List.map_map]
    apply List.Nodup.sublist (List.filter_sublist.map Entry.fieldName)
    exact ((List.perm_insertionSort _ _).map Entry.fieldName).nodup_iff.mpr db.entries.keys_nodup
  · intro j _
    simp

theorem entries_loadDictionary_of_complete {db : Database} {d : Domain} {m : OrderedMap String ℕ}
    (hm : Numbered m)
    (hrows : ∀ e ∈ db.entries.rows, e.domain = d → (e.fieldName,e.fieldIndex) ∈ m.entries)
    (hall : ∀ p ∈ m.entries, ∃ e ∈ db.entries.rows,
      e.fieldName = p.1 ∧ e.fieldIndex = p.2 ∧ e.domain = d) :
    (loadDictionary db d).entries = m.entries := by
  have hmem : ∀ p, p ∈ (loadDictionary db d).entries ↔ p ∈ m.entries := by
    intro p
    rw [entries_loadDictionary, List.mem_map]
    simp only [List.mem_filter, List.mem_insertionSort, decide_eq_true_eq]
    constructor
    · rintro ⟨e,⟨he,hd⟩,rfl⟩
      exact hrows e he hd
    · intro hp
      obtain ⟨e,he,hn,hi,hd⟩ := hall p hp
      exact ⟨e,⟨he,hd⟩,by rw [hn, hi]⟩
  have hperm : (loadDictionary db d).entries.Perm m.entries :=
    (List.perm_ext_iff_of_nodup (List.Nodup.of_map _ (loadDictionary db d).nodup)
      (List.Nodup.of_map _ m.nodup)).mpr hmem
  refine List.Perm.eq_of_pairwise ?_ ?_ hm.sorted hperm
  · intro a b ha hb hab hba
    have hi : a.2 = b.2 := by omega
    have hb' : (b.1,a.2) ∈ m.entries := by rw [hi]; exact hb
    exact Prod.ext (hm.inj ((hmem a).mp ha) hb') hi
  · rw [entries_loadDictionary, List.pairwise_map]
    apply List.Pairwise.filter
    exact List.pairwise_insertionSort (fun a b : Entry => a.fieldIndex ≤ b.fieldIndex) _

/-- What carries the stability: no gaps, no row beside the maps, and every
index that was sent still stands. -/
structure Sound (s : Session) : Prop where
  numbered : ∀ d, Numbered (s.agent.domains d)
  rows : ∀ e ∈ s.agent.db.entries.rows,
    (e.fieldName,e.fieldIndex) ∈ (s.agent.domains e.domain).entries
  sent : ∀ d f i, (d,f,i) ∈ s.sent → (f,i) ∈ (s.agent.domains d).entries

theorem sound_fresh : Sound .fresh :=
  ⟨fun _ => numbered_empty,fun _ he => (List.not_mem_nil he).elim,
    fun _ _ _ h => (List.not_mem_nil h).elim⟩

theorem Sound.stable {s : Session} (h : Sound s) : Stable s where
  distinct d _ _ _ hf hg :=
    (h.numbered d).inj ((OrderedMap.get?_eq_some_iff _ _ _).mp hf)
      ((OrderedMap.get?_eq_some_iff _ _ _).mp hg)
  sent_once d f g i hf hg := (h.numbered d).inj (h.sent d f i hf) (h.sent d g i hg)
  kept d f _ i hf hg :=
    (h.numbered d).inj (h.sent d f i hf) ((OrderedMap.get?_eq_some_iff _ _ _).mp hg)

theorem Sound.addField {s : Session} (h : Sound s) {f : String}
    (hf : f ∉ (s.agent.domains (inferDomain f)).keys) (fault : Option Fault) :
    Sound ⟨addField s.agent f fault,
      s.sent++[(inferDomain f,f,(s.agent.domains (inferDomain f)).size)]⟩ := by
  have hkeep : ∀ d p, p ∈ (s.agent.domains d).entries →
      p ∈ ((AgentDictionary.addField s.agent f fault).domains d).entries := by
    intro d p hp
    rw [entries_addField s.agent f fault hf d]
    exact List.mem_append_left _ hp
  have hself : (f,(s.agent.domains (inferDomain f)).size) ∈
      ((AgentDictionary.addField s.agent f fault).domains (inferDomain f)).entries := by
    rw [entries_addField s.agent f fault hf, if_pos rfl]
    simp
  constructor
  · exact numbered_addField h.numbered hf fault
  · intro e he
    rcases mem_rows_persistNewField _ _ _ _ _ _ he with hold | rfl
    · exact hkeep _ _ (h.rows e hold)
    · exact hself
  · intro d g i hm
    rcases List.mem_append.mp hm with hold | hnew
    · exact hkeep d _ (h.sent d g i hold)
    · obtain ⟨rfl,rfl,rfl⟩ : d = inferDomain f ∧ g = f ∧
          i = (s.agent.domains (inferDomain f)).size := by simpa using hnew
      exact hself

theorem Sound.get {s : Session} (h : Sound s) (f : String) (fault : Option Fault) :
    Sound (indexStep s (.get f fault)) := by
  rcases getIndex_cases s.agent f fault with ⟨-,he⟩ | ⟨-,i,hi,he⟩ | ⟨-,hf,he⟩
  · show Sound (if (getIndex s.agent f fault).1 = -1 then _ else _)
    rw [he, if_pos rfl]
    exact h
  · have hne : (i : ℤ) ≠ -1 := by omega
    show Sound (if (getIndex s.agent f fault).1 = -1 then _ else _)
    rw [he, if_neg hne]
    refine ⟨h.numbered,h.rows,fun d g j hm => ?_⟩
    rcases List.mem_append.mp hm with hold | hnew
    · exact h.sent d g j hold
    · obtain ⟨rfl,rfl,rfl⟩ : d = inferDomain f ∧ g = f ∧ j = i := by simpa using hnew
      exact (OrderedMap.get?_eq_some_iff _ _ _).mp hi
  · have hne : ((s.agent.domains (inferDomain f)).size : ℤ) ≠ -1 := by omega
    show Sound (if (getIndex s.agent f fault).1 = -1 then _ else _)
    rw [he, if_neg hne]
    exact h.addField hf fault

theorem Sound.restart {s : Session} (h : Sound s) (hp : Persisted s .restart) :
    Sound (indexStep s .restart) := by
  have hload : ∀ d, (loadDictionary s.agent.db d).entries = (s.agent.domains d).entries := by
    intro d
    apply entries_loadDictionary_of_complete (h.numbered d)
    · intro e he hd
      exact hd ▸ h.rows e he
    · exact hp d (mem_allDomains d)
  constructor
  · intro d
    show (loadDictionary s.agent.db d).entries.map Prod.snd =
      List.range (loadDictionary s.agent.db d).entries.length
    rw [hload]
    exact h.numbered d
  · intro e he
    show _ ∈ (loadDictionary s.agent.db e.domain).entries
    rw [hload]
    exact h.rows e he
  · intro d f i hm
    show _ ∈ (loadDictionary s.agent.db d).entries
    rw [hload]
    exact h.sent d f i hm

theorem Sound.step {s : Session} {e : IndexEvent} (hp : Persisted s e) (h : Sound s) :
    Sound (indexStep s e) := by
  cases e with
  | get f fault => exact h.get f fault
  | restart => exact h.restart hp
  | reset =>
    exact ⟨fun _ => numbered_empty,fun _ he => (List.not_mem_nil he).elim,
      fun _ _ _ hm => (List.not_mem_nil hm).elim⟩

/-- A field whose last statement fails is there after a restart. -/
def restarted : List IndexEvent :=
  [.get "temperature" (some .version),.restart,.get "pressure" none]

end Iotistica.AgentDictionary
