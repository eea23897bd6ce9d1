import Iotistica.DictionaryStability
import Iotistica.DictionaryCloud

/-!
# Full syncs and compacted messages

The agent numbers the fields of each domain from zero, the cloud numbers
the published names in one list. The version is published once and never
moves afterwards, so a message that the version check accepts may carry
fields of later domains and fields found after the sync. Runs whose
messages carry only published fields of the first domain in use decode
every tuple under its own path.
-/

set_option autoImplicit false

namespace Iotistica.DictionarySync
open Iotistica Iotistica.AgentDictionary Iotistica.CloudDictionary Iotistica.GuardedRun

/-- A path the compaction indexes: the leaf of an object, whose tuple is
left out for a skipped field, or a primitive element of an array. -/
structure Item where
  path : String
  element : Bool
  fault : Option Fault

/-- A message as it travels: its version and tuples of an index and, for
the comparison only, the path that was encoded. -/
structure Message where
  v : ℕ
  tuples : List (ℤ × String)

structure Link where
  agent : Agent
  dictChannel : List FullPayload
  dataChannel : List Message
  cloud : Cloud
  published : Option FullPayload
  decoded : List (String × Option String)

def Link.fresh : Link := ⟨.fresh .fresh,[],[],.fresh,none,[]⟩

inductive Event where
  | discover (fieldName : String) (fault : Option Fault)
  | compact (items : List Item)
  | syncFull
  | store
  | deliver

def compactItems (a : Agent) : List Item → List (ℤ × String) × Agent
  | [] => ([],a)
  | item::rest =>
    let found := getIndex a item.path item.fault
    let others := compactItems found.2 rest
    (if found.1 = -1 ∧ item.element = false then others.1 else (found.1,item.path)::others.1,
      others.2)

/-- The dictionary `expandMessage` decodes with, if it gets that far. -/
def accepted (c : Cloud) (v : ℕ) : Option FieldMap :=
  match getDictionary c with
  | (none,_) => none
  | (some m,c) => if c.version ≠ none ∧ c.version ≠ some v then none else some m

def step (s : Link) : Event → Link
  | .discover f fault => { s with agent := (getIndex s.agent f fault).2 }
  | .compact items =>
    let result := compactItems s.agent items
    { s with
      agent := result.2
      dataChannel := s.dataChannel++[⟨s.agent.dictionaryVersion,result.1⟩] }
  | .syncFull =>
    let result := syncFullDictionary s.agent
    { s with
      agent := result.2
      dictChannel := s.dictChannel++result.1.toList
      published := result.1 <|> s.published }
  | .store =>
    match s.dictChannel with
    | [] => s
    | p::rest =>
      { s with dictChannel := rest, cloud := storeDictionary s.cloud (.names p.fields) p.version }
  | .deliver =>
    match s.dataChannel with
    | [] => s
    | msg::rest =>
      { s with
        dataChannel := rest
        cloud := (getDictionary s.cloud).2
        decoded := s.decoded++((accepted s.cloud msg.v).toList.flatMap
          (fun m => msg.tuples.map (fun t => (t.2,fieldName m t.1)))) }

/-- Every tuple of an accepted message was decoded under its own path. -/
def Faithful (s : Link) : Prop := ∀ t ∈ s.decoded, t.2 = some t.1

def rank : Domain → ℕ
  | .key => 0
  | .metric => 1
  | .unit => 2
  | .quality => 3
  | .device => 4

structure Plain (p : FullPayload) (path : String) : Prop where
  nonempty : path ≠ ""
  indexed : shouldSkipField path = false
  published : path ∈ p.fields
  first : ∀ g ∈ p.fields, rank (inferDomain path) ≤ rank (inferDomain g)

instance Plain.decidable (p : FullPayload) (path : String) : Decidable (Plain p path) :=
  decidable_of_iff (path ≠ "" ∧ shouldSkipField path = false ∧ path ∈ p.fields ∧
      ∀ g ∈ p.fields, rank (inferDomain path) ≤ rank (inferDomain g))
    ⟨fun ⟨h₁,h₂,h₃,h₄⟩ => ⟨h₁,h₂,h₃,h₄⟩,fun h => ⟨h.1,h.2,h.3,h.4⟩⟩

/-- What the messages carry is plain: for a message compacted after the
sync its paths, for the sync those of the messages still on their way. -/
def Aligned (s : Link) : Event → Prop
  | .compact items => ∀ p ∈ s.published, ∀ item ∈ items,
      item.element = true ∨ shouldSkipField item.path = false → Plain p item.path
  | .syncFull => ∀ p ∈ (syncFullDictionary s.agent).1, ∀ msg ∈ s.dataChannel,
      ∀ t ∈ msg.tuples, Plain p t.2
  | _ => True

instance Aligned.decidable (s : Link) : (e : Event) → Decidable (Aligned s e)
  | .compact items => inferInstanceAs (Decidable (∀ p ∈ s.published, ∀ item ∈ items, _))
  | .syncFull => inferInstanceAs (Decidable (∀ p ∈ (syncFullDictionary s.agent).1, _))
  | .discover _ _ => .isTrue trivial
  | .store => .isTrue trivial
  | .deliver => .isTrue trivial

structure Ordered (a : Agent) : Prop where
  numbered : ∀ d, Numbered (a.domains d)
  homed : ∀ d, ∀ f ∈ (a.domains d).keys, inferDomain f = d

def indexOf (a : Agent) (f : String) : Option ℕ := (a.domains (inferDomain f)).get? f

structure Extends (a b : Agent) : Prop where
  ordered : Ordered b
  kept : ∀ f i, indexOf a f = some i → indexOf b f = some i
  dictionaryVersion : b.dictionaryVersion = a.dictionaryVersion
  lastSyncedVersion : b.lastSyncedVersion = a.lastSyncedVersion

theorem Extends.refl {a : Agent} (h : Ordered a) : Extends a a := ⟨h,fun _ _ h => h,rfl,rfl⟩

theorem Extends.trans {a b c : Agent} (h : Extends a b) (h' : Extends b c) : Extends a c :=
  ⟨h'.ordered,fun f i hf => h'.kept f i (h.kept f i hf),
    h'.dictionaryVersion.trans h.dictionaryVersion,
    h'.lastSyncedVersion.trans h.lastSyncedVersion⟩

theorem extends_addField {a : Agent} (h : Ordered a) {f : String}
    (hf : f ∉ (a.domains (inferDomain f)).keys) (fault : Option Fault) :
    Extends a (addField a f fault) := by
  have hent := entries_addField a f fault hf
  refine ⟨⟨fun d => ?_,fun d g hg => ?_⟩,fun g i hg => ?_,rfl,rfl⟩
  · exact numbered_addField h.numbered hf fault d
  · have hg' : g ∈ ((addField a f fault).domains d).entries.map Prod.fst := hg
    rw [hent d, List.map_append] at hg'
    rcases List.mem_append.mp hg' with hold | hnew
    · exact h.homed d g hold
    · by_cases hd : d = inferDomain f
      · rw [if_pos hd] at hnew
        obtain rfl : g = f := by simpa using hnew
        exact hd.symm
      · rw [if_neg hd] at hnew
        cases hnew
  · have hm := (OrderedMap.get?_eq_some_iff _ _ _).mp hg
    apply (OrderedMap.get?_eq_some_iff _ _ _).mpr
    rw [hent]
    exact List.mem_append_left _ hm

theorem getIndex_spec {a : Agent} (h : Ordered a) (f : String) (fault : Option Fault) :
    Extends a (getIndex a f fault).2 ∧
      ((shouldSkipField f = true ∧ (getIndex a f fault).1 = -1) ∨
        (shouldSkipField f = false ∧ ∃ i : ℕ, (getIndex a f fault).1 = i ∧
          indexOf (getIndex a f fault).2 f = some i)) := by
  rcases getIndex_cases a f fault with ⟨hs,he⟩ | ⟨hs,i,hi,he⟩ | ⟨hs,hf,he⟩
  · rw [he]
    exact ⟨.refl h,Or.inl ⟨hs,rfl⟩⟩
  · rw [he]
    exact ⟨.refl h,Or.inr ⟨hs,i,rfl,hi⟩⟩
  · rw [he]
    refine ⟨extends_addField h hf fault,Or.inr ⟨hs,_,rfl,?_⟩⟩
    apply (OrderedMap.get?_eq_some_iff _ _ _).mpr
    rw [entries_addField a f fault hf, if_pos rfl]
    simp

/-- A tuple carries the index the agent has for its path, or minus one for
a skipped element. -/
def Carries (a : Agent) (t : ℤ × String) : Prop :=
  (shouldSkipField t.2 = true ∧ t.1 = -1) ∨
    (shouldSkipField t.2 = false ∧ ∃ i : ℕ, t.1 = i ∧ indexOf a t.2 = some i)

theorem Carries.mono {a b : Agent} (h : Extends a b) {t : ℤ × String} (ht : Carries a t) :
    Carries b t := by
  rcases ht with hs | ⟨hs,i,hi,hf⟩
  · exact Or.inl hs
  · exact Or.inr ⟨hs,i,hi,h.kept _ i hf⟩

theorem compactItems_spec (items : List Item) {a : Agent} (h : Ordered a) :
    Extends a (compactItems a items).2 ∧
      ∀ t ∈ (compactItems a items).1, Carries (compactItems a items).2 t ∧
        ∃ item ∈ items, item.path = t.2 ∧
          (item.element = true ∨ shouldSkipField item.path = false) := by
  induction items generalizing a with
  | nil => exact ⟨.refl h,fun t ht => (List.not_mem_nil ht).elim⟩
  | cons item rest ih =>
    obtain ⟨hext,hidx⟩ := getIndex_spec h item.path item.fault
    obtain ⟨hrest,htuples⟩ := ih hext.ordered
    refine ⟨hext.trans hrest,fun t ht => ?_⟩
    have hold : t ∈ (compactItems (getIndex a item.path item.fault).2 rest).1 →
        Carries (compactItems a (item::rest)).2 t ∧ ∃ item' ∈ item::rest, item'.path = t.2 ∧
          (item'.element = true ∨ shouldSkipField item'.path = false) := by
      intro hm
      obtain ⟨hc,item',hi',hp⟩ := htuples t hm
      exact ⟨hc,item',List.mem_cons_of_mem _ hi',hp⟩
    by_cases hskip : (getIndex a item.path item.fault).1 = -1 ∧ item.element = false
    · have hlist : (compactItems a (item::rest)).1 =
          (compactItems (getIndex a item.path item.fault).2 rest).1 := if_pos hskip
      rw [hlist] at ht
      exact hold ht
    · have hlist : (compactItems a (item::rest)).1 =
          ((getIndex a item.path item.fault).1,item.path)::
            (compactItems (getIndex a item.path item.fault).2 rest).1 := if_neg hskip
      rw [hlist] at ht
      rcases List.mem_cons.mp ht with rfl | hm
      · have hc : Carries (getIndex a item.path item.fault).2
            ((getIndex a item.path item.fault).1,item.path) := hidx
        refine ⟨hc.mono hrest,item,List.mem_cons_self,rfl,?_⟩
        rcases hidx with ⟨hs,hneg⟩ | ⟨hs,-⟩
        · left
          simpa [hneg] using hskip
        · exact Or.inr hs
      · exact hold hm

theorem getElem?_keys {m : OrderedMap String ℕ} (h : Numbered m) {f : String} {i : ℕ}
    (hf : (f,i) ∈ m.entries) : m.keys[i]? = some f := by
  obtain ⟨k,hk⟩ := List.mem_iff_getElem?.mp hf
  have hsnd : (m.entries.map Prod.snd)[k]? = some i := by rw [List.getElem?_map, hk]; rfl
  rw [h] at hsnd
  have hki : k = i := by
    rw [List.getElem?_range] at hsnd
    · exact Option.some.inj hsnd
    · by_contra hlt
      rw [List.getElem?_eq_none (by simpa using hlt)] at hsnd
      cases hsnd
  unfold OrderedMap.keys
  rw [List.getElem?_map, ← hki, hk]
  rfl

theorem fieldsOf_eq_keys {a : Agent} (h : Ordered a) (d : Domain) :
    fieldsOf a d = (a.domains d).keys := by
  unfold fieldsOf
  rw [List.Pairwise.insertionSort_eq (h.numbered d).sorted]
  rfl

theorem mem_fullPayload_iff {a : Agent} (h : Ordered a) (f : String) :
    f ∈ (fullPayload a).fields ↔ ∃ i, indexOf a f = some i := by
  show f ∈ allDomains.flatMap (fieldsOf a) ↔ _
  rw [List.mem_flatMap]
  constructor
  · rintro ⟨d,-,hf⟩
    rw [fieldsOf_eq_keys h] at hf
    have hd := h.homed d f hf
    subst hd
    cases hg : indexOf a f with
    | none => exact absurd hf (OrderedMap.not_mem_keys_of_get? hg)
    | some i => exact ⟨i,rfl⟩
  · rintro ⟨i,hi⟩
    refine ⟨inferDomain f,mem_allDomains _,?_⟩
    rw [fieldsOf_eq_keys h]
    exact List.mem_map_of_mem ((OrderedMap.get?_eq_some_iff _ _ _).mp hi)

theorem allDomains_split (d : Domain) :
    ∃ pre post, allDomains = pre++d::post ∧ ∀ d' ∈ pre, rank d' < rank d := by
  cases d with
  | key => exact ⟨[],_,rfl,by decide⟩
  | metric => exact ⟨[.key],_,rfl,by decide⟩
  | unit => exact ⟨[.key,.metric],_,rfl,by decide⟩
  | quality => exact ⟨[.key,.metric,.unit],_,rfl,by decide⟩
  | device => exact ⟨[.key,.metric,.unit,.quality],_,rfl,by decide⟩

theorem getElem?_fullPayload {a : Agent} (h : Ordered a) {f : String} {i : ℕ}
    (hi : indexOf a f = some i) (hf : Plain (fullPayload a) f) :
    (fullPayload a).fields[i]? = some f := by
  obtain ⟨pre,post,hsplit,hrank⟩ := allDomains_split (inferDomain f)
  have hnone : pre.flatMap (fieldsOf a) = [] := by
    rw [List.flatMap_eq_nil_iff]
    intro d hd
    rw [fieldsOf_eq_keys h, List.eq_nil_iff_forall_not_mem]
    intro g hg
    have hgd := h.homed d g hg
    have hmem : g ∈ (fullPayload a).fields := by
      apply List.mem_flatMap.mpr
      exact ⟨d,mem_allDomains d,by rw [fieldsOf_eq_keys h]; exact hg⟩
    have hle := hf.first g hmem
    have hlt := hrank d hd
    rw [hgd] at hle
    omega
  have hkey : (a.domains (inferDomain f)).keys[i]? = some f :=
    getElem?_keys (h.numbered _) ((OrderedMap.get?_eq_some_iff _ _ _).mp hi)
  have hlt : i < (a.domains (inferDomain f)).keys.length := by
    by_contra hge
    rw [List.getElem?_eq_none (by omega)] at hkey
    cases hkey
  show (allDomains.flatMap (fieldsOf a))[i]? = some f
  rw [hsplit, List.flatMap_append, hnone, List.nil_append, List.flatMap_cons,
    fieldsOf_eq_keys h, List.getElem?_append_left hlt]
  exact hkey

theorem get?_fieldMap_names (fields : List String) (i : ℕ) :
    (fieldMap (.names fields)).get? i = fields[i]? := by
  have hent : (fieldMap (.names fields)).entries = fields.zipIdx.map (fun f => (f.2,f.1)) := by
    show (OrderedMap.empty.assignAll (fields.zipIdx.map (fun f => (f.2,f.1)))).entries = _
    rw [OrderedMap.entries_assignAll]
    · rfl
    · rw [List.map_map]
      have hsnd : (Prod.fst ∘ fun f : String × ℕ => (f.2,f.1)) = Prod.snd := rfl
      rw [hsnd, List.zipIdx_map_snd]
      exact List.nodup_range'
    · intro j _
      simp
  apply Option.ext
  intro name
  rw [OrderedMap.get?_eq_some_iff, hent, List.mem_map]
  constructor
  · rintro ⟨p,hp,he⟩
    have hp' := List.mem_zipIdx_iff_getElem?.mp hp
    rw [Prod.mk.injEq] at he
    rw [← he.1, ← he.2]
    exact hp'
  · intro hn
    exact ⟨(name,i),List.mem_zipIdx_iff_getElem?.mpr hn,rfl⟩

/-- Before the sync the cloud has nothing; afterwards the payload is on its
way or stored. -/
def Delivery (s : Link) : Prop :=
  match s.published with
  | none => s.agent.dictionaryVersion ≠ s.agent.lastSyncedVersion ∧ s.dictChannel = [] ∧
      s.cloud = .fresh
  | some p => s.agent.dictionaryVersion = s.agent.lastSyncedVersion ∧
      ((s.dictChannel = [p] ∧ s.cloud = .fresh) ∨
        (s.dictChannel = [] ∧ s.cloud.dict = some (fieldMap (.names p.fields))))

structure Agreement (s : Link) : Prop where
  ordered : Ordered s.agent
  delivery : Delivery s
  snapshot : ∀ p ∈ s.published, ∀ f ∈ p.fields, ∃ i, indexOf s.agent f = some i ∧
    (Plain p f → p.fields[i]? = some f)
  carried : ∀ msg ∈ s.dataChannel, ∀ t ∈ msg.tuples, Carries s.agent t
  plain : ∀ p ∈ s.published, ∀ msg ∈ s.dataChannel, ∀ t ∈ msg.tuples, Plain p t.2
  faithful : Faithful s

theorem agreement_fresh : Agreement .fresh where
  ordered := ⟨fun _ => numbered_empty,fun _ _ hf => (List.not_mem_nil hf).elim⟩
  delivery := ⟨by decide,rfl,rfl⟩
  snapshot p hp := by cases hp
  carried msg hm := (List.not_mem_nil hm).elim
  plain p hp := by cases hp
  faithful t ht := (List.not_mem_nil ht).elim

theorem Agreement.extend {s : Link} (h : Agreement s) {b : Agent} (hb : Extends s.agent b) :
    Agreement { s with agent := b } where
  ordered := hb.ordered
  delivery := by
    have hd := h.delivery
    unfold Delivery at hd ⊢
    simp only [hb.dictionaryVersion, hb.lastSyncedVersion]
    exact hd
  snapshot p hp f hf := by
    obtain ⟨i,hi,hpos⟩ := h.snapshot p hp f hf
    exact ⟨i,hb.kept f i hi,hpos⟩
  carried msg hm t ht := (h.carried msg hm t ht).mono hb
  plain := h.plain
  faithful := h.faithful

theorem Agreement.compact {s : Link} (h : Agreement s) {items : List Item}
    (ha : Aligned s (.compact items)) : Agreement (step s (.compact items)) := by
  obtain ⟨hext,htuples⟩ := compactItems_spec items h.ordered
  have h' := h.extend hext
  refine ⟨h'.ordered,h'.delivery,h'.snapshot,fun msg hm t ht => ?_,fun p hp msg hm t ht => ?_,
    h'.faithful⟩
  · rcases List.mem_append.mp hm with hold | hnew
    · exact h'.carried msg hold t ht
    · obtain rfl := List.mem_singleton.mp hnew
      exact (htuples t ht).1
  · rcases List.mem_append.mp hm with hold | hnew
    · exact h'.plain p hp msg hold t ht
    · obtain rfl := List.mem_singleton.mp hnew
      obtain ⟨item,hitem,hpath,hcar⟩ := (htuples t ht).2
      rw [← hpath]
      exact ha p hp item hitem hcar

theorem syncFullDictionary_cases (a : Agent) :
    syncFullDictionary a = (none,a) ∨
    (a.dictionaryVersion ≠ a.lastSyncedVersion ∧
      syncFullDictionary a =
        (some (fullPayload a),{ a with lastSyncedVersion := a.dictionaryVersion })) := by
  unfold syncFullDictionary
  by_cases h₁ : getTotalDictionarySize a = 0
  · exact Or.inl (if_pos h₁)
  · by_cases h₂ : a.dictionaryVersion = a.lastSyncedVersion
    · left
      rw [if_neg h₁, if_pos h₂]
    · right
      rw [if_neg h₁, if_neg h₂]
      exact ⟨h₂,rfl⟩

theorem Agreement.syncFull {s : Link} (h : Agreement s) (ha : Aligned s .syncFull) :
    Agreement (step s .syncFull) := by
  rcases syncFullDictionary_cases s.agent with he | ⟨hne,he⟩
  · have hs : step s .syncFull = s := by simp [step, he]
    rw [hs]
    exact h
  · have hpub : s.published = none := by
      cases hp : s.published with
      | none => rfl
      | some p =>
        have hd := h.delivery
        unfold Delivery at hd
        rw [hp] at hd
        exact absurd hd.1 hne
    have hd := h.delivery
    unfold Delivery at hd
    rw [hpub] at hd
    have hs : step s .syncFull =
        { s with
          agent := { s.agent with lastSyncedVersion := s.agent.dictionaryVersion }
          dictChannel := [fullPayload s.agent]
          published := some (fullPayload s.agent) } := by
      simp [step, he, hd.2.1]
    rw [hs]
    refine ⟨⟨h.ordered.numbered,h.ordered.homed⟩,⟨rfl,Or.inl ⟨rfl,hd.2.2⟩⟩,?_,?_,?_,h.faithful⟩
    · intro p hp f hf
      obtain rfl := Option.some.inj hp
      obtain ⟨i,hi⟩ := (mem_fullPayload_iff h.ordered f).mp hf
      exact ⟨i,hi,getElem?_fullPayload h.ordered hi⟩
    · exact h.carried
    · intro p hp msg hm t ht
      obtain rfl := Option.some.inj hp
      exact ha (fullPayload s.agent) (by rw [he]; rfl) msg hm t ht

theorem Agreement.store {s : Link} (h : Agreement s) : Agreement (step s .store) := by
  have hd := h.delivery
  cases hc : s.dictChannel with
  | nil =>
    have hs : step s .store = s := by simp [step, hc]
    rw [hs]
    exact h
  | cons p rest =>
    unfold Delivery at hd
    cases hp : s.published with
    | none =>
      rw [hp] at hd
      rw [hd.2.1] at hc
      cases hc
    | some q =>
      rw [hp] at hd
      obtain ⟨hv,⟨hq,-⟩ | ⟨hq,-⟩⟩ := hd
      · rw [hq] at hc
        obtain ⟨rfl,rfl⟩ : q = p ∧ [] = rest := by simpa using hc
        have hs : step s .store =
            { s with
              dictChannel := []
              cloud := storeDictionary s.cloud (.names q.fields) q.version } := by
          simp [step, hq]
        have hdict : (storeDictionary s.cloud (.names q.fields) q.version).dict =
            some (fieldMap (.names q.fields)) := (storeDictionary_redis _ _ _).1
        rw [hs]
        refine ⟨h.ordered,?_,h.snapshot,h.carried,h.plain,h.faithful⟩
        unfold Delivery
        simp only [hp]
        exact ⟨hv,Or.inr ⟨trivial,hdict⟩⟩
      · rw [hq] at hc
        cases hc

theorem getDictionary_fresh : getDictionary .fresh = (none,.fresh) := rfl

theorem getDictionary_hit {c : Cloud} {m : FieldMap} (h : c.dict = some m) :
    getDictionary c = (some m,c) := by
  unfold getDictionary
  rw [h]

theorem fieldName_of_plain {s : Link} (h : Agreement s) {p : FullPayload}
    (hp : s.published = some p) {t : ℤ × String} (hc : Carries s.agent t) (ht : Plain p t.2) :
    fieldName (fieldMap (.names p.fields)) t.1 = some t.2 := by
  rcases hc with ⟨hs,-⟩ | ⟨-,i,hi,hidx⟩
  · rw [ht.indexed] at hs
    cases hs
  · obtain ⟨j,hj,hpos⟩ := h.snapshot p hp t.2 ht.published
    have hij : i = j := by
      rw [hidx] at hj
      exact Option.some.inj hj
    subst hij
    unfold fieldName
    rw [hi, if_neg (by omega), Int.toNat_natCast, get?_fieldMap_names, hpos ht]
    simp [ht.nonempty]

theorem Agreement.cloud_cases {s : Link} (h : Agreement s) : s.cloud = .fresh ∨
    ∃ p, s.published = some p ∧ s.cloud.dict = some (fieldMap (.names p.fields)) := by
  have hd := h.delivery
  unfold Delivery at hd
  cases hp : s.published with
  | none =>
    rw [hp] at hd
    exact Or.inl hd.2.2
  | some p =>
    rw [hp] at hd
    rcases hd.2 with ⟨-,hf⟩ | ⟨-,hf⟩
    · exact Or.inl hf
    · exact Or.inr ⟨p,rfl,hf⟩

theorem Agreement.getDictionary_same {s : Link} (h : Agreement s) :
    (getDictionary s.cloud).2 = s.cloud := by
  rcases h.cloud_cases with hf | ⟨p,-,hf⟩
  · rw [hf, getDictionary_fresh]
  · rw [getDictionary_hit hf]

theorem Agreement.accepted_published {s : Link} (h : Agreement s) {v : ℕ} {m : FieldMap}
    (ha : accepted s.cloud v = some m) :
    ∃ p, s.published = some p ∧ m = fieldMap (.names p.fields) := by
  unfold accepted at ha
  rcases h.cloud_cases with hf | ⟨p,hp,hf⟩
  · rw [hf, getDictionary_fresh] at ha
    cases ha
  · simp only [getDictionary_hit hf] at ha
    split at ha
    · cases ha
    · exact ⟨p,hp,(Option.some.inj ha).symm⟩

theorem Agreement.deliver {s : Link} (h : Agreement s) : Agreement (step s .deliver) := by
  cases hc : s.dataChannel with
  | nil =>
    have hs : step s .deliver = s := by simp [step, hc]
    rw [hs]
    exact h
  | cons msg rest =>
    have hsub : ∀ msg' ∈ rest, msg' ∈ s.dataChannel := by
      intro msg' hm
      rw [hc]
      exact List.mem_cons_of_mem _ hm
    have hs : step s .deliver =
        { s with
          dataChannel := rest
          cloud := (getDictionary s.cloud).2
          decoded := s.decoded++((accepted s.cloud msg.v).toList.flatMap
            (fun m => msg.tuples.map (fun t => (t.2,fieldName m t.1)))) } := by
      simp [step, hc]
    rw [hs, h.getDictionary_same]
    refine ⟨h.ordered,h.delivery,h.snapshot,fun m hm => h.carried m (hsub m hm),
      fun p hp m hm => h.plain p hp m (hsub m hm),fun r hr => ?_⟩
    rcases List.mem_append.mp hr with hold | hnew
    · exact h.faithful r hold
    · obtain ⟨m,hm,hr'⟩ := List.mem_flatMap.mp hnew
      obtain ⟨t,ht,rfl⟩ := List.mem_map.mp hr'
      have hacc : accepted s.cloud msg.v = some m := Option.mem_toList.mp hm
      have hmsg : msg ∈ s.dataChannel := by simp [hc]
      obtain ⟨p,hp,rfl⟩ := h.accepted_published hacc
      exact fieldName_of_plain h hp (h.carried msg hmsg t ht) (h.plain p hp msg hmsg t ht)

theorem Agreement.step {s : Link} {e : Event} (ha : Aligned s e) (h : Agreement s) :
    Agreement (step s e) := by
  cases e with
  | discover f fault => exact h.extend (getIndex_spec h.ordered f fault).1
  | compact items => exact h.compact ha
  | syncFull => exact h.syncFull ha
  | store => exact h.store
  | deliver => exact h.deliver

/-- Over any order of discoveries, compactions, syncs, storages and
deliveries whose messages are aligned with the published list, every tuple
of every accepted message is decoded under its own path. -/
theorem accepted_messages_faithful (es : List Event) (h : Meets step Aligned es .fresh) :
    ∀ pre, pre <+: es → Faithful (run step pre .fresh) := by
  rintro pre ⟨post,rfl⟩
  have hm := ((meets_append step Aligned pre post .fresh).mp h).1
  exact (run_invariant (I := Agreement) (fun _ _ ha hs => hs.step ha) pre _ hm
    agreement_fresh).faithful

def oneDomain : List Event :=
  [.compact [⟨"temperature",false,none⟩,⟨"pressure",false,none⟩],.syncFull,.store,
    .compact [⟨"pressure",false,none⟩],.deliver,.deliver]

theorem one_domain_faithful :
    Meets step Aligned oneDomain .fresh ∧ Faithful (run step oneDomain .fresh) := by
  have hm : Meets step Aligned oneDomain .fresh := by decide +kernel
  exact ⟨hm,accepted_messages_faithful _ hm _ List.prefix_rfl⟩

/-- Two domains number their first field zero, and the cloud decodes the
quality of a reading as its temperature. -/
theorem second_domain_not_faithful :
    ¬ Faithful (run step [.compact [⟨"temperature",false,none⟩,⟨"quality",false,none⟩],.syncFull,
      .store,.deliver] .fresh) := by
  intro h
  have hq := h ("quality",some "temperature") (by decide +kernel)
  revert hq
  decide

end Iotistica.DictionarySync
