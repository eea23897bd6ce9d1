import Iotistica.CloudIncidents

/-!
# Counting of cloud incidents

The incident that was stored in Redis last has counted every event since its
creation as long as nobody stores another one between a call's reading and
its storing. The table follows when the rows are written in the same order
and a row is inserted only where none is unresolved.
-/

set_option autoImplicit false

namespace Iotistica.CloudIncidents
open Iotistica.GuardedRun Iotistica.KeyedTable

structure Counts (v : Incident) (events : List AnomalyEvent) : Prop where
  count : v.eventCount = events.length
  devices : v.affectedDevices.Nodup ∧
    ∀ d, d ∈ v.affectedDevices ↔ ∃ e ∈ events, e.deviceName = d
  agents : v.affectedAgents.Nodup ∧ ∀ a, a ∈ v.affectedAgents ↔ ∃ e ∈ events, e.agentUuid = a
  score : (∃ e ∈ events, e.anomalyScore = v.maxAnomalyScore) ∧
    ∀ e ∈ events, e.anomalyScore ≤ v.maxAnomalyScore

def unresolved (t : Track) : List Incident := t.rows.filter (fun row => row.status ≠ .resolved)

def since (t : Track) (incidentId : ℕ) : List AnomalyEvent := t.handled.drop (t.createdAt incidentId)

structure Sound (t : Track) : Prop where
  single : (unresolved t).length ≤ 1
  counted : t.calls.rows = [] → ∀ row ∈ unresolved t, Counts row (since t row.incidentId)

def UpToDate (t : Track) : Phase → Prop
  | .loaded _ seen => seen = t.storedCount
  | _ => True

/-- The call's incident is still the last one that was created; a new row
meets no unresolved one, and an old row has not been written by a later
call. -/
def RowInOrder (t : Track) : Phase → Prop
  | .stored v true => (∃ w ∈ t.latest, w.incidentId = v.incidentId) ∧ unresolved t = []
  | .stored v false => (∃ w ∈ t.latest, w.incidentId = v.incidentId) ∧
      ∃ row ∈ t.rows, row.incidentId = v.incidentId ∧ row.eventCount < v.eventCount
  | _ => True

def Ordered (t : Track) : Action → Prop
  | .setex id => ∀ c ∈ t.calls.rows, c.id = id → UpToDate t c.phase
  | .persist id => ∀ c ∈ t.calls.rows, c.id = id → RowInOrder t c.phase
  | _ => True

/-- The condition of a step is one on the track of its fingerprint. -/
def InOrder (s : State) (e : Event) : Prop := Ordered (s e.fingerprint) e.action

instance (t : Track) : (p : Phase) → Decidable (UpToDate t p)
  | .loaded _ seen => inferInstanceAs (Decidable (seen = t.storedCount))
  | .arrived => .isTrue trivial
  | .stale => .isTrue trivial
  | .checked => .isTrue trivial
  | .stored _ _ => .isTrue trivial

instance (t : Track) : (p : Phase) → Decidable (RowInOrder t p)
  | .stored v true => inferInstanceAs
      (Decidable ((∃ w ∈ t.latest, w.incidentId = v.incidentId) ∧ unresolved t = []))
  | .stored v false => inferInstanceAs
      (Decidable ((∃ w ∈ t.latest, w.incidentId = v.incidentId) ∧
        ∃ row ∈ t.rows, row.incidentId = v.incidentId ∧ row.eventCount < v.eventCount))
  | .arrived => .isTrue trivial
  | .stale => .isTrue trivial
  | .checked => .isTrue trivial
  | .loaded _ _ => .isTrue trivial

instance (t : Track) : (a : Action) → Decidable (Ordered t a)
  | .setex id => inferInstanceAs (Decidable (∀ c ∈ t.calls.rows, c.id = id → UpToDate t c.phase))
  | .persist id => inferInstanceAs
      (Decidable (∀ c ∈ t.calls.rows, c.id = id → RowInOrder t c.phase))
  | .arrive _ => .isTrue trivial
  | .select _ => .isTrue trivial
  | .del _ => .isTrue trivial
  | .get _ => .isTrue trivial
  | .expire => .isTrue trivial
  | .resolve _ => .isTrue trivial

instance (s : State) (e : Event) : Decidable (InOrder s e) :=
  inferInstanceAs (Decidable (Ordered (s e.fingerprint) e.action))

theorem mem_pushNew {names : List String} {name d : String} :
    d ∈ pushNew names name ↔ d ∈ names ∨ d = name := by
  unfold pushNew
  split
  · next hmem =>
    refine ⟨Or.inl,?_⟩
    rintro (hd | rfl)
    · exact hd
    · exact hmem
  · simp

theorem nodup_pushNew {names : List String} {name : String} (h : names.Nodup) :
    (pushNew names name).Nodup := by
  unfold pushNew
  split
  · exact h
  · next hnew =>
    rw [List.nodup_append]
    refine ⟨h,List.nodup_singleton _,fun a ha b hb => ?_⟩
    obtain rfl := List.mem_singleton.mp hb
    rintro rfl
    exact hnew ha

theorem counts_new (id : ℕ) (e : AnomalyEvent) : Counts (newIncident id e) [e] where
  count := rfl
  devices := ⟨List.nodup_singleton _,fun d => by simp [newIncident, eq_comm]⟩
  agents := ⟨List.nodup_singleton _,fun a => by simp [newIncident, eq_comm]⟩
  score := ⟨⟨e,List.mem_singleton.mpr rfl,rfl⟩,fun x hx => by
    obtain rfl := List.mem_singleton.mp hx
    exact le_refl _⟩

theorem union_push {names : List String} {events : List AnomalyEvent} {e : AnomalyEvent}
    (name : AnomalyEvent → String) (h : ∀ d, d ∈ names ↔ ∃ x ∈ events, name x = d) (d : String) :
    d ∈ pushNew names (name e) ↔ ∃ x ∈ events++[e], name x = d := by
  rw [mem_pushNew, h]
  constructor
  · rintro (⟨x,hx,rfl⟩ | rfl)
    · exact ⟨x,List.mem_append_left _ hx,rfl⟩
    · exact ⟨e,List.mem_append_right _ (List.mem_singleton.mpr rfl),rfl⟩
  · rintro ⟨x,hx,rfl⟩
    rcases List.mem_append.mp hx with hx | hx
    · exact Or.inl ⟨x,hx,rfl⟩
    · obtain rfl := List.mem_singleton.mp hx
      exact Or.inr rfl

theorem counts_updated {v : Incident} {events : List AnomalyEvent} (h : Counts v events)
    (e : AnomalyEvent) : Counts (updatedIncident v e) (events++[e]) where
  count := by simp [updatedIncident, h.count]
  devices := ⟨nodup_pushNew h.devices.1,union_push AnomalyEvent.deviceName h.devices.2⟩
  agents := ⟨nodup_pushNew h.agents.1,union_push AnomalyEvent.agentUuid h.agents.2⟩
  score := by
    obtain ⟨⟨top,htop,hscore⟩,hle⟩ := h.score
    refine ⟨?_,fun x hx => ?_⟩
    · rcases le_total v.maxAnomalyScore e.anomalyScore with hnew | hold
      · exact ⟨e,List.mem_append_right _ (List.mem_singleton.mpr rfl),(max_eq_right hnew).symm⟩
      · exact ⟨top,List.mem_append_left _ htop,hscore.trans (max_eq_left hold).symm⟩
    · rcases List.mem_append.mp hx with hx | hx
      · exact le_trans (hle x hx) (le_max_left _ _)
      · obtain rfl := List.mem_singleton.mp hx
        exact le_max_right _ _

structure Agrees (row v : Incident) : Prop where
  count : row.eventCount = v.eventCount
  devices : row.affectedDevices = v.affectedDevices
  agents : row.affectedAgents = v.affectedAgents
  score : row.maxAnomalyScore = v.maxAnomalyScore

theorem Agrees.counts {row v : Incident} {events : List AnomalyEvent} (h : Agrees row v)
    (hc : Counts v events) : Counts row events := by
  obtain ⟨hcount,hdevices,hagents,hscore⟩ := hc
  rw [← h.count] at hcount
  rw [← h.devices] at hdevices
  rw [← h.agents] at hagents
  rw [← h.score] at hscore
  exact ⟨hcount,hdevices,hagents,hscore⟩

def Stored (t : Track) (id : ℕ) (v : Incident) (created : Bool) : Prop :=
  ∃ c ∈ t.calls.rows, c.id = id ∧ c.phase = .stored v created

def Loaded (t : Track) (id : ℕ) (existing : Option Incident) (seen : ℕ) : Prop :=
  ∃ c ∈ t.calls.rows, c.id = id ∧ c.phase = .loaded existing seen

section
variable {t : Track} {c : Call}

theorem mem_setPhase (hc : c ∈ t.calls.rows) {phase : Phase} {d : Call} :
    d ∈ (setPhase t c phase).calls.rows ↔
      d = { c with phase := phase } ∨ (d ∈ t.calls.rows ∧ d.id ≠ c.id) :=
  t.calls.mem_update_key hc (fun c => { c with phase := phase }) (fun _ => rfl) d

theorem phase_setPhase (hc : c ∈ t.calls.rows) {phase p : Phase} {id : ℕ} :
    (∃ d ∈ (setPhase t c phase).calls.rows, d.id = id ∧ d.phase = p) ↔
      (id = c.id ∧ phase = p) ∨ (id ≠ c.id ∧ ∃ d ∈ t.calls.rows, d.id = id ∧ d.phase = p) := by
  constructor
  · rintro ⟨d,hd,hid,hp⟩
    rcases (mem_setPhase hc).mp hd with rfl | ⟨hd,hne⟩
    · exact Or.inl ⟨hid.symm,hp⟩
    · exact Or.inr ⟨fun he => hne (hid.trans he),d,hd,hid,hp⟩
  · rintro (⟨rfl,rfl⟩ | ⟨hne,d,hd,rfl,rfl⟩)
    · exact ⟨{ c with phase := phase },(mem_setPhase hc).mpr (Or.inl rfl),rfl,rfl⟩
    · exact ⟨d,(mem_setPhase hc).mpr (Or.inr ⟨hd,hne⟩),rfl,rfl⟩

theorem stored_unique {v w : Incident} {x y : Bool} {id : ℕ} (h : Stored t id v x)
    (h' : Stored t id w y) : v = w ∧ x = y := by
  obtain ⟨a,ha,hid,hp⟩ := h
  obtain ⟨b,hb,hid',hp'⟩ := h'
  obtain rfl := t.calls.key_unique ha hb (hid.trans hid'.symm)
  rw [hp] at hp'
  cases hp'
  exact ⟨rfl,rfl⟩

theorem phase_of_mem (hc : c ∈ t.calls.rows) {p : Phase}
    (h : ∃ d ∈ t.calls.rows, d.id = c.id ∧ d.phase = p) : c.phase = p := by
  obtain ⟨d,hd,hid,rfl⟩ := h
  rw [t.calls.key_unique hd hc hid]

theorem with_call {P : Track → Prop} {id : ℕ} {f : Call → Track} (ht : P t)
    (hf : ∀ c ∈ t.calls.rows, c.id = id → P (f c)) : P (withCall t id f) := by
  unfold withCall
  cases hc : t.calls.rows.find? (fun c => c.id = id) with
  | none => exact ht
  | some c => exact hf c (List.mem_of_find?_eq_some hc) (by simpa using List.find?_some hc)

end

structure Inv (t : Track) : Prop where
  redis : ∀ v ∈ t.redis, t.latest = some v
  latest : ∀ v ∈ t.latest, Counts v (since t v.incidentId) ∧ v.incidentId < t.nextId ∧
    t.createdAt v.incidentId ≤ t.handled.length
  loaded : ∀ id existing seen, Loaded t id existing seen → seen ≤ t.storedCount ∧
    (seen = t.storedCount → ∀ v ∈ existing, t.latest = some v)
  stored : ∀ id v created, Stored t id v created → v.incidentId < t.nextId ∧
    (∀ w ∈ t.latest, w.incidentId = v.incidentId → v = w ∨ v.eventCount < w.eventCount) ∧
    (created = true → ∀ row ∈ t.rows, row.incidentId ≠ v.incidentId)
  creators : ∀ i j v w, Stored t i v true → Stored t j w true → v.incidentId = w.incidentId → i = j
  rowIds : (t.rows.map Incident.incidentId).Nodup
  oldRows : ∀ row ∈ t.rows, row.incidentId < t.nextId
  written : ∀ v ∈ t.latest, (∃ row ∈ t.rows, row.incidentId = v.incidentId ∧ Agrees row v) ∨
    ∃ id created, Stored t id v created
  known : ∀ row ∈ unresolved t, (∃ v ∈ t.latest, row.incidentId = v.incidentId) ∨
    ∃ id v, Stored t id v true ∧ ∃ w ∈ t.latest, w.incidentId = v.incidentId
  single : ∀ row ∈ unresolved t, ∀ other ∈ unresolved t, row.incidentId = other.incidentId

section
variable {t : Track} {c : Call}

theorem Inv.quiet (h : Inv t) {redis : Option Incident} {calls : Table Call Call.id}
    (hredis : ∀ v ∈ redis, t.redis = some v)
    (hstored : ∀ id v created, Stored { t with redis := redis, calls := calls } id v created ↔
      Stored t id v created)
    (hloaded : ∀ id existing seen,
      Loaded { t with redis := redis, calls := calls } id existing seen →
        Loaded t id existing seen ∨ (existing = t.redis ∧ seen = t.storedCount)) :
    Inv { t with redis := redis, calls := calls } where
  redis := fun v hv => h.redis v (hredis v hv)
  latest := h.latest
  loaded := fun id existing seen hl => by
    rcases hloaded id existing seen hl with hl | ⟨rfl,rfl⟩
    · exact h.loaded id existing seen hl
    · exact ⟨Nat.le_refl _,fun _ v hv => h.redis v hv⟩
  stored := fun id v created hs => h.stored id v created ((hstored _ _ _).mp hs)
  creators := fun i j v w hi hj => h.creators i j v w ((hstored _ _ _).mp hi) ((hstored _ _ _).mp hj)
  rowIds := h.rowIds
  oldRows := h.oldRows
  written := fun v hv => by
    refine (h.written v hv).imp id ?_
    rintro ⟨id,created,hs⟩
    exact ⟨id,created,(hstored _ _ _).mpr hs⟩
  known := fun row hrow => by
    refine (h.known row hrow).imp id ?_
    rintro ⟨id,v,hs,hw⟩
    exact ⟨id,v,(hstored _ _ _).mpr hs,hw⟩
  single := h.single

theorem inv_arrive (h : Inv t) (event : AnomalyEvent) :
    Inv { t with calls := t.calls.insert (fun id => ⟨id,event,.arrived⟩) (fun _ => rfl) } := by
  refine h.quiet (fun v hv => hv) (fun id v created => ?_) (fun id existing seen hl => Or.inl ?_)
  · constructor
    · rintro ⟨d,hd,hid,hp⟩
      rcases (Table.mem_insert _ _ (fun _ => rfl) _).mp hd with hd | rfl
      · exact ⟨d,hd,hid,hp⟩
      · cases hp
    · rintro ⟨d,hd,hid,hp⟩
      exact ⟨d,(Table.mem_insert _ _ (fun _ => rfl) _).mpr (Or.inl hd),hid,hp⟩
  · obtain ⟨d,hd,hid,hp⟩ := hl
    rcases (Table.mem_insert _ _ (fun _ => rfl) _).mp hd with hd | rfl
    · exact ⟨d,hd,hid,hp⟩
    · cases hp

theorem Inv.advance (h : Inv t) (hc : c ∈ t.calls.rows) {redis : Option Incident} {phase : Phase}
    (hredis : ∀ v ∈ redis, t.redis = some v)
    (hold : ∀ v created, c.phase ≠ .stored v created)
    (hnew : ∀ v created, phase ≠ .stored v created)
    (hload : ∀ existing seen, phase = .loaded existing seen →
      existing = t.redis ∧ seen = t.storedCount) :
    Inv (setPhase { t with redis := redis } c phase) := by
  refine h.quiet hredis (fun id v created => ?_) (fun id existing seen hl => ?_)
  · refine (phase_setPhase hc).trans ⟨?_,fun hs => Or.inr ⟨?_,hs⟩⟩
    · rintro (⟨-,hp⟩ | ⟨-,hs⟩)
      · exact absurd hp (hnew v created)
      · exact hs
    · rintro rfl
      exact hold v created (phase_of_mem hc hs)
  · rcases (phase_setPhase hc).mp hl with ⟨-,hp⟩ | ⟨-,hl⟩
    · exact Or.inr (hload existing seen hp)
    · exact Or.inl hl

theorem inv_select (h : Inv t) (hc : c ∈ t.calls.rows) : Inv (select t c) := by
  unfold select
  split
  · next hphase =>
    have hold : ∀ v created, c.phase ≠ .stored v created := by simp [hphase]
    split
    · split
      · exact h.advance hc (fun v hv => hv) hold (by simp) (by simp)
      · exact h.advance hc (fun v hv => hv) hold (by simp) (by simp)
    · exact h.advance hc (fun v hv => hv) hold (by simp) (by simp)
  · exact h

theorem inv_del (h : Inv t) (hc : c ∈ t.calls.rows) : Inv (del t c) := by
  unfold del
  split
  · next hphase =>
    exact h.advance hc (fun v hv => absurd hv (by simp)) (by simp [hphase]) (by simp) (by simp)
  · exact h

theorem inv_get (h : Inv t) (hc : c ∈ t.calls.rows) : Inv (get t c) := by
  unfold get
  split
  · next hphase =>
    refine h.advance hc (fun v hv => hv) (by simp [hphase]) (by simp) (fun existing seen hp => ?_)
    cases hp
    exact ⟨rfl,rfl⟩
  · exact h

theorem inv_expire (h : Inv t) : Inv { t with redis := none } :=
  h.quiet (fun v hv => absurd hv (by simp)) (fun _ _ _ => Iff.rfl) (fun _ _ _ hl => Or.inl hl)

theorem stored_after (hc : c ∈ t.calls.rows) {existing : Option Incident} {seen : ℕ}
    (hphase : c.phase = .loaded existing seen) {u v : Incident} {x y : Bool} {id : ℕ} :
    Stored (setPhase t c (.stored u x)) id v y ↔
      (id = c.id ∧ u = v ∧ x = y) ∨ Stored t id v y := by
  refine (phase_setPhase hc).trans ?_
  constructor
  · rintro (⟨hid,hp⟩ | ⟨-,hs⟩)
    · cases hp
      exact Or.inl ⟨hid,rfl,rfl⟩
    · exact Or.inr hs
  · rintro (⟨hid,rfl,rfl⟩ | hs)
    · exact Or.inl ⟨hid,rfl⟩
    · refine Or.inr ⟨?_,hs⟩
      rintro rfl
      have hstored : c.phase = .stored v y := phase_of_mem hc hs
      rw [hphase] at hstored
      cases hstored

theorem loaded_after (hc : c ∈ t.calls.rows) {u : Incident} {x : Bool} {id seen : ℕ}
    {existing : Option Incident} (hl : Loaded (setPhase t c (.stored u x)) id existing seen) :
    Loaded t id existing seen := by
  rcases (phase_setPhase hc).mp hl with ⟨-,hp⟩ | ⟨-,hl⟩
  · cases hp
  · exact hl

theorem inv_setex_update (h : Inv t) (hc : c ∈ t.calls.rows) {v : Incident} {seen : ℕ}
    (hphase : c.phase = .loaded (some v) seen) (hseen : seen = t.storedCount) :
    Inv (setPhase (store t (updatedIncident v c.event) c.event) c
      (.stored (updatedIncident v c.event) false)) := by
  have hlatest : t.latest = some v := (h.loaded c.id _ _ ⟨c,hc,rfl,hphase⟩).2 hseen v rfl
  obtain ⟨hcounts,hid,hcreated⟩ := h.latest v hlatest
  have hstored := @stored_after (store t (updatedIncident v c.event) c.event) c hc _ _ hphase
    (updatedIncident v c.event)
  refine ⟨fun w hw => hw,fun w hw => ?_,fun id existing n hl => ?_,fun id w created hs => ?_,
    fun i j x y hi hj => ?_,h.rowIds,h.oldRows,fun w hw => ?_,fun row hrow => ?_,h.single⟩
  · obtain rfl := Option.some.inj hw
    have hsince : (t.handled++[c.event]).drop (t.createdAt v.incidentId) =
        since t v.incidentId++[c.event] := List.drop_append_of_le_length hcreated
    refine ⟨?_,hid,?_⟩
    · show Counts (updatedIncident v c.event) ((t.handled++[c.event]).drop (t.createdAt v.incidentId))
      rw [hsince]
      exact counts_updated hcounts c.event
    · show t.createdAt v.incidentId ≤ (t.handled++[c.event]).length
      rw [List.length_append]
      omega
  · have hle := (h.loaded id existing n (loaded_after hc hl)).1
    refine ⟨Nat.le_succ_of_le hle,fun hn => ?_⟩
    have hn : n = t.storedCount+1 := hn
    omega
  · rcases hstored.mp hs with ⟨-,rfl,rfl⟩ | hs
    · refine ⟨hid,fun w hw _ => Or.inl (Option.some.inj hw),fun hf => by cases hf⟩
    · obtain ⟨hlt,horder,hnew⟩ := h.stored id w created hs
      refine ⟨hlt,fun u hu huid => Or.inr ?_,hnew⟩
      obtain rfl := Option.some.inj hu
      show w.eventCount < v.eventCount+1
      rcases horder v hlatest huid with rfl | hless
      · exact Nat.lt_succ_self _
      · exact Nat.lt_succ_of_lt hless
  · rcases hstored.mp hi with ⟨-,-,hf⟩ | hi
    · cases hf
    · rcases hstored.mp hj with ⟨-,-,hf⟩ | hj
      · cases hf
      · exact h.creators i j x y hi hj
  · obtain rfl := Option.some.inj hw
    exact Or.inr ⟨c.id,false,hstored.mpr (Or.inl ⟨rfl,rfl,rfl⟩)⟩
  · rcases h.known row hrow with ⟨w,hw,hrowid⟩ | ⟨id,x,hs,w,hw,hx⟩
    · obtain rfl := Option.some.inj (hlatest.symm.trans hw)
      exact Or.inl ⟨updatedIncident v c.event,rfl,hrowid⟩
    · obtain rfl := Option.some.inj (hlatest.symm.trans hw)
      exact Or.inr ⟨id,x,hstored.mpr (Or.inr hs),updatedIncident v c.event,rfl,hx⟩

theorem inv_setex_create (h : Inv t) (hc : c ∈ t.calls.rows) {seen : ℕ}
    (hphase : c.phase = .loaded none seen) :
    Inv (setPhase (store { t with
        nextId := t.nextId+1
        createdAt := fun id => if id = t.nextId then t.handled.length else t.createdAt id }
      (newIncident t.nextId c.event) c.event) c
      (.stored (newIncident t.nextId c.event) true)) := by
  have hstored := @stored_after (store { t with
      nextId := t.nextId+1
      createdAt := fun id => if id = t.nextId then t.handled.length else t.createdAt id }
    (newIncident t.nextId c.event) c.event) c hc _ _ hphase (newIncident t.nextId c.event)
  refine ⟨fun w hw => hw,fun w hw => ?_,fun id existing n hl => ?_,fun id w created hs => ?_,
    fun i j x y hi hj hxy => ?_,h.rowIds,fun row hrow => Nat.lt_succ_of_lt (h.oldRows row hrow),
    fun w hw => ?_,fun row hrow => ?_,h.single⟩
  · obtain rfl := Option.some.inj hw
    have hsince : (t.handled++[c.event]).drop
        (if t.nextId = t.nextId then t.handled.length else t.createdAt t.nextId) = [c.event] := by
      rw [if_pos rfl]
      exact List.drop_left
    refine ⟨?_,Nat.lt_succ_self _,?_⟩
    · show Counts (newIncident t.nextId c.event) ((t.handled++[c.event]).drop
        (if t.nextId = t.nextId then t.handled.length else t.createdAt t.nextId))
      rw [hsince]
      exact counts_new t.nextId c.event
    · show (if t.nextId = t.nextId then t.handled.length else t.createdAt t.nextId) ≤
        (t.handled++[c.event]).length
      rw [if_pos rfl, List.length_append]
      omega
  · have hle := (h.loaded id existing n (loaded_after hc hl)).1
    refine ⟨Nat.le_succ_of_le hle,fun hn => ?_⟩
    have hn : n = t.storedCount+1 := hn
    omega
  · rcases hstored.mp hs with ⟨-,rfl,rfl⟩ | hs
    · refine ⟨Nat.lt_succ_self _,fun w hw _ => Or.inl (Option.some.inj hw),
        fun _ row hrow hid => ?_⟩
      exact absurd (h.oldRows row hrow) (Nat.not_lt.mpr (Nat.le_of_eq hid.symm))
    · obtain ⟨hlt,-,hnew⟩ := h.stored id w created hs
      refine ⟨Nat.lt_succ_of_lt hlt,fun u hu huid => ?_,hnew⟩
      obtain rfl := Option.some.inj hu
      exact absurd hlt (Nat.not_lt.mpr (Nat.le_of_eq huid))
  · rcases hstored.mp hi with ⟨hic,rfl,-⟩ | hi
    · rcases hstored.mp hj with ⟨hjc,-,-⟩ | hj
      · exact hic.trans hjc.symm
      · exact absurd (h.stored j y true hj).1 (Nat.not_lt.mpr (Nat.le_of_eq hxy))
    · rcases hstored.mp hj with ⟨-,rfl,-⟩ | hj
      · exact absurd (h.stored i x true hi).1 (Nat.not_lt.mpr (Nat.le_of_eq hxy.symm))
      · exact h.creators i j x y hi hj hxy
  · obtain rfl := Option.some.inj hw
    exact Or.inr ⟨c.id,true,hstored.mpr (Or.inl ⟨rfl,rfl,rfl⟩)⟩
  · exact Or.inr ⟨c.id,newIncident t.nextId c.event,hstored.mpr (Or.inl ⟨rfl,rfl,rfl⟩),
      newIncident t.nextId c.event,rfl,rfl⟩

theorem stored_finish {v : Incident} {x : Bool} {id : ℕ} :
    Stored (finish t c) id v x ↔ id ≠ c.id ∧ Stored t id v x := by
  constructor
  · rintro ⟨d,hd,rfl,hp⟩
    obtain ⟨hd,hne⟩ := (Table.mem_delete _ _ _).mp hd
    exact ⟨by simpa using hne,d,hd,rfl,hp⟩
  · rintro ⟨hne,d,hd,rfl,hp⟩
    exact ⟨d,(Table.mem_delete _ _ _).mpr ⟨hd,by simpa using hne⟩,rfl,hp⟩

theorem loaded_finish {existing : Option Incident} {id seen : ℕ}
    (hl : Loaded (finish t c) id existing seen) : Loaded t id existing seen := by
  obtain ⟨d,hd,hid,hp⟩ := hl
  exact ⟨d,((Table.mem_delete _ _ _).mp hd).1,hid,hp⟩

/-- A call writes its row and ends. What it wrote is the last incident, or
that one is still in another call's hands. -/
theorem Inv.persist (h : Inv t) (hc : c ∈ t.calls.rows) {v : Incident} {created : Bool}
    (hphase : c.phase = .stored v created) {rows : List Incident}
    (hlatest : ∃ w ∈ t.latest, w.incidentId = v.incidentId)
    (hids : (rows.map Incident.incidentId).Nodup)
    (hold : ∀ row ∈ rows, row.incidentId < t.nextId)
    (hwrote : ∃ row ∈ rows, row.incidentId = v.incidentId ∧ Agrees row v)
    (hstale : ∀ w ∈ t.latest, v.eventCount < w.eventCount →
      ¬∃ row ∈ t.rows, row.incidentId = w.incidentId ∧ Agrees row w)
    (hcreators : ∀ id w, id ≠ c.id → Stored t id w true → ∀ row ∈ rows,
      row.incidentId ≠ w.incidentId)
    (hopen : ∀ row ∈ rows, row.status ≠ .resolved → row.incidentId = v.incidentId) :
    Inv (finish { t with rows := rows } c) where
  redis := h.redis
  latest := h.latest
  loaded := fun id existing seen hl => h.loaded id existing seen (loaded_finish hl)
  stored := fun id w x hs => by
    obtain ⟨hne,hs⟩ := stored_finish.mp hs
    obtain ⟨hlt,horder,-⟩ := h.stored id w x hs
    refine ⟨hlt,horder,?_⟩
    rintro rfl
    exact hcreators id w hne hs
  creators := fun i j x y hi hj =>
    h.creators i j x y (stored_finish.mp hi).2 (stored_finish.mp hj).2
  rowIds := hids
  oldRows := hold
  written := fun w hw => by
    obtain ⟨w',hw',hid⟩ := hlatest
    obtain rfl := Option.some.inj (hw.symm.trans hw')
    have hown : Stored t c.id v created := ⟨c,hc,rfl,hphase⟩
    rcases (h.stored c.id v created hown).2.1 w hw hid with rfl | hless
    · exact Or.inl hwrote
    · rcases h.written w hw with hrow | ⟨id,x,hs⟩
      · exact absurd hrow (hstale w hw hless)
      · refine Or.inr ⟨id,x,stored_finish.mpr ⟨?_,hs⟩⟩
        rintro rfl
        obtain ⟨rfl,-⟩ := stored_unique hs hown
        exact absurd hless (Nat.lt_irrefl _)
  known := fun row hrow => by
    obtain ⟨hrow,hst⟩ := List.mem_filter.mp hrow
    obtain ⟨w,hw,hid⟩ := hlatest
    exact Or.inl ⟨w,hw,(hopen row hrow (by simpa using hst)).trans hid.symm⟩
  single := fun row hrow other hother => by
    obtain ⟨hrow,hst⟩ := List.mem_filter.mp hrow
    obtain ⟨hother,hst'⟩ := List.mem_filter.mp hother
    exact (hopen row hrow (by simpa using hst)).trans
      (hopen other hother (by simpa using hst')).symm

theorem inv_insert (h : Inv t) (hc : c ∈ t.calls.rows) {v : Incident}
    (hphase : c.phase = .stored v true) (hlatest : ∃ w ∈ t.latest, w.incidentId = v.incidentId)
    (hnone : unresolved t = []) : Inv (finish (storeIncident t v) c) := by
  have hown : Stored t c.id v true := ⟨c,hc,rfl,hphase⟩
  obtain ⟨hlt,-,hnew⟩ := h.stored c.id v true hown
  have hnew := hnew rfl
  have hmem : ∀ row ∈ t.rows++[v], row ∈ t.rows ∨ row = v := fun row hrow => by
    simpa using hrow
  refine h.persist hc hphase hlatest ?_ ?_ ⟨v,by simp,rfl,⟨rfl,rfl,rfl,rfl⟩⟩ ?_ ?_ ?_
  · rw [List.map_append, List.nodup_append]
    refine ⟨h.rowIds,by simp,fun a ha b hb => ?_⟩
    obtain ⟨row,hrow,rfl⟩ := List.mem_map.mp ha
    obtain rfl : b = v.incidentId := by simpa using hb
    exact hnew row hrow
  · intro row hrow
    rcases hmem row hrow with hrow | rfl
    · exact h.oldRows row hrow
    · exact hlt
  · rintro w hw - ⟨row,hrow,hid,-⟩
    obtain ⟨w',hw',hid'⟩ := hlatest
    obtain rfl := Option.some.inj (hw.symm.trans hw')
    exact hnew row hrow (hid.trans hid')
  · intro id w hne hs row hrow hid
    rcases hmem row hrow with hrow | rfl
    · exact (h.stored id w true hs).2.2 rfl row hrow hid
    · exact hne (h.creators c.id id row w hown hs hid).symm
  · intro row hrow hst
    rcases hmem row hrow with hrow | rfl
    · have hopen : row ∈ unresolved t := List.mem_filter.mpr ⟨hrow,by simpa using hst⟩
      rw [hnone] at hopen
      exact absurd hopen List.not_mem_nil
    · rfl

theorem row_unique (h : Inv t) {a b : Incident} (ha : a ∈ t.rows) (hb : b ∈ t.rows)
    (hid : a.incidentId = b.incidentId) : a = b := List.inj_on_of_nodup_map h.rowIds ha hb hid

theorem mem_updateIncident {v row : Incident} (hrow : row ∈ (updateIncident t v).rows) :
    ∃ a ∈ t.rows, row.incidentId = a.incidentId ∧
      ((a.incidentId = v.incidentId ∧ Agrees row v) ∨ (a.incidentId ≠ v.incidentId ∧ row = a)) := by
  obtain ⟨a,ha,rfl⟩ := List.mem_map.mp hrow
  split
  · next hid => exact ⟨a,ha,hid.symm,Or.inl ⟨hid,rfl,rfl,rfl,rfl⟩⟩
  · next hne => exact ⟨a,ha,rfl,Or.inr ⟨hne,rfl⟩⟩

theorem inv_update (h : Inv t) (hc : c ∈ t.calls.rows) {v : Incident}
    (hphase : c.phase = .stored v false) (hlatest : ∃ w ∈ t.latest, w.incidentId = v.incidentId)
    (hrow : ∃ row ∈ t.rows, row.incidentId = v.incidentId ∧ row.eventCount < v.eventCount) :
    Inv (finish (updateIncident t v) c) := by
  obtain ⟨old,hold,hid,hless⟩ := hrow
  refine h.persist hc hphase hlatest ?_ ?_ ?_ ?_ ?_ ?_
  · have hids : (t.rows.map (fun row => if row.incidentId = v.incidentId then
        { v with fingerprint := row.fingerprint, metric := row.metric, firstSeen := row.firstSeen }
        else row)).map Incident.incidentId = t.rows.map Incident.incidentId := by
      rw [List.map_map]
      apply List.map_congr_left
      intro row _
      simp only [Function.comp]
      split
      · next hrow => exact hrow.symm
      · rfl
    rw [hids]
    exact h.rowIds
  · intro row hrow
    obtain ⟨a,ha,hida,-⟩ := mem_updateIncident hrow
    exact hida ▸ h.oldRows a ha
  · refine ⟨_,List.mem_map_of_mem hold,?_⟩
    rw [if_pos hid]
    exact ⟨rfl,rfl,rfl,rfl,rfl⟩
  · rintro w hw hlater ⟨row,hrow,hidrow,hagrees⟩
    obtain ⟨w',hw',hid'⟩ := hlatest
    obtain rfl := Option.some.inj (hw.symm.trans hw')
    obtain rfl := row_unique h hrow hold (hidrow.trans (hid'.trans hid.symm))
    have hcount := hagrees.count
    omega
  · intro id w _ hs row hrow hidrow
    obtain ⟨a,ha,hida,-⟩ := mem_updateIncident hrow
    exact (h.stored id w true hs).2.2 rfl a ha (hida.symm.trans hidrow)
  · intro row hrow hst
    obtain ⟨a,ha,hida,hrow⟩ := mem_updateIncident hrow
    rcases hrow with ⟨hav,-⟩ | ⟨-,rfl⟩
    · exact hida.trans hav
    · have hopen : row ∈ unresolved t := List.mem_filter.mpr ⟨ha,by simpa using hst⟩
      obtain ⟨w,hw,hwid⟩ := hlatest
      rcases h.known row hopen with ⟨x,hx,hrowid⟩ | ⟨id,x,hs,y,hy,hyid⟩
      · obtain rfl := Option.some.inj (hw.symm.trans hx)
        exact hrowid.trans hwid
      · -- a new incident has no row yet, but this one has
        obtain rfl := Option.some.inj (hw.symm.trans hy)
        exact absurd (hid.trans (hwid.symm.trans hyid)) ((h.stored id x true hs).2.2 rfl old hold)

theorem inv_resolve (h : Inv t) (incidentId : ℕ) : Inv (resolve t incidentId) := by
  have hmem : ∀ row ∈ (resolve t incidentId).rows, ∃ a ∈ t.rows,
      row.incidentId = a.incidentId ∧ (row.status ≠ .resolved → row = a) := by
    intro row hrow
    obtain ⟨a,ha,rfl⟩ := List.mem_map.mp hrow
    refine ⟨a,ha,?_⟩
    split
    · exact ⟨rfl,fun hst => absurd rfl hst⟩
    · exact ⟨rfl,fun _ => rfl⟩
  have hopen : ∀ row ∈ unresolved (resolve t incidentId), row ∈ unresolved t := by
    intro row hrow
    obtain ⟨hrow,hst⟩ := List.mem_filter.mp hrow
    obtain ⟨a,ha,-,hsame⟩ := hmem row hrow
    obtain rfl := hsame (by simpa using hst)
    exact List.mem_filter.mpr ⟨ha,hst⟩
  refine ⟨h.redis,h.latest,h.loaded,fun id v created hs => ?_,h.creators,?_,fun row hrow => ?_,
    fun v hv => ?_,fun row hrow => h.known row (hopen row hrow),
    fun row hrow other hother => h.single row (hopen row hrow) other (hopen other hother)⟩
  · obtain ⟨hlt,horder,hnew⟩ := h.stored id v created hs
    refine ⟨hlt,horder,fun hcreated row hrow => ?_⟩
    obtain ⟨a,ha,hid,-⟩ := hmem row hrow
    exact hid ▸ hnew hcreated a ha
  · have hids : (resolve t incidentId).rows.map Incident.incidentId =
        t.rows.map Incident.incidentId := by
      rw [resolve, List.map_map]
      apply List.map_congr_left
      intro row _
      simp only [Function.comp]
      split
      · rfl
      · rfl
    rw [hids]
    exact h.rowIds
  · obtain ⟨a,ha,hid,-⟩ := hmem row hrow
    exact hid ▸ h.oldRows a ha
  · refine (h.written v hv).imp ?_ id
    rintro ⟨row,hrow,hid,hagrees⟩
    refine ⟨_,List.mem_map_of_mem hrow,?_⟩
    split
    · exact ⟨hid,hagrees.count,hagrees.devices,hagrees.agents,hagrees.score⟩
    · exact ⟨hid,hagrees⟩

theorem inv_track (a : Action) (h : Inv t) (hok : Ordered t a) : Inv (trackStep t a) := by
  cases a with
  | arrive event => exact inv_arrive h event
  | select id => exact with_call h (fun c hc _ => inv_select h hc)
  | del id => exact with_call h (fun c hc _ => inv_del h hc)
  | get id => exact with_call h (fun c hc _ => inv_get h hc)
  | setex id =>
    refine with_call h (fun c hc hid => ?_)
    unfold setex
    split
    · next hphase => exact inv_setex_create h hc hphase
    · next hphase =>
      have hseen := hok c hc hid
      rw [hphase] at hseen
      exact inv_setex_update h hc hphase hseen
    · exact h
  | persist id =>
    refine with_call h (fun c hc hid => ?_)
    unfold persist
    split
    · next hphase =>
      have horder := hok c hc hid
      rw [hphase] at horder
      obtain ⟨hlatest,hnone⟩ := horder
      exact inv_insert h hc hphase hlatest hnone
    · next hphase =>
      have horder := hok c hc hid
      rw [hphase] at horder
      obtain ⟨hlatest,hrow⟩ := horder
      exact inv_update h hc hphase hlatest hrow
    · exact h
  | expire => exact inv_expire h
  | resolve incidentId => exact inv_resolve h incidentId

theorem inv_empty : Inv .empty where
  redis := fun v hv => absurd hv (by simp [Track.empty])
  latest := fun v hv => absurd hv (by simp [Track.empty])
  loaded := fun _ _ _ ⟨_,hc,_⟩ => absurd hc List.not_mem_nil
  stored := fun _ _ _ ⟨_,hc,_⟩ => absurd hc List.not_mem_nil
  creators := fun _ _ _ _ ⟨_,hc,_⟩ => absurd hc List.not_mem_nil
  rowIds := List.nodup_nil
  oldRows := fun _ hrow => absurd hrow List.not_mem_nil
  written := fun v hv => absurd hv (by simp [Track.empty])
  known := fun _ hrow => absurd hrow List.not_mem_nil
  single := fun _ hrow => absurd hrow List.not_mem_nil

theorem Inv.sound (h : Inv t) : Sound t where
  single := by
    have hnodup : ((unresolved t).map Incident.incidentId).Nodup :=
      h.rowIds.sublist (List.filter_sublist.map _)
    cases hrows : unresolved t with
    | nil => exact Nat.zero_le _
    | cons a rest =>
      cases rest with
      | nil => exact Nat.le_refl _
      | cons b rest =>
        rw [hrows] at hnodup
        have hsame := h.single a (by simp [hrows]) b (by simp [hrows])
        simp [hsame] at hnodup
  counted := by
    intro hquiet row hrow
    have hnobody : ∀ id v x, ¬Stored t id v x := by
      rintro id v x ⟨c,hc,-⟩
      rw [hquiet] at hc
      exact List.not_mem_nil hc
    rcases h.known row hrow with ⟨v,hv,hid⟩ | ⟨id,v,hs,-⟩
    · rcases h.written v hv with ⟨same,hsame,hsid,hagrees⟩ | ⟨id,x,hs⟩
      · obtain rfl := row_unique h (List.mem_filter.mp hrow).1 hsame (hid.trans hsid.symm)
        rw [hid]
        exact hagrees.counts (h.latest v hv).1
      · exact absurd hs (hnobody _ _ _)
    · exact absurd hs (hnobody _ _ _)

end

theorem inv_step (s : State) (e : Event) (hok : InOrder s e) (h : ∀ f, Inv (s f)) (f : String) :
    Inv (step s e f) := by
  unfold step
  split
  · by_cases hf : f = e.fingerprint
    · simp only [hf]
      exact inv_track e.action (h e.fingerprint) hok
    · simp only [if_neg hf]
      exact h f
  · exact h f

/-- Incidents count every event in each run whose steps are in order. -/
theorem sound_of_in_order (es : List Event) (hm : Meets step InOrder es started)
    (pre : List Event) (hpre : pre <+: es) (fingerprint : String) :
    Sound (run step pre started fingerprint) := by
  obtain ⟨post,rfl⟩ := hpre
  have hpre := ((meets_append step InOrder pre post started).mp hm).1
  have hinv : ∀ f, Inv (run step pre started f) :=
    run_invariant (I := fun s => ∀ f, Inv (s f)) (fun s e hok h => inv_step s e hok h) pre started hpre
      (fun _ => inv_empty)
  exact (hinv fingerprint).sound

def reading (agentUuid : String) (anomalyScore : ℚ) : AnomalyEvent :=
  ⟨"f","cpu_usage",.warning,"press",agentUuid,"system",1000,anomalyScore,1/2⟩

def call (id : ℕ) (event : AnomalyEvent) : List Action :=
  [.arrive event,.select id,.get id,.setex id,.persist id]

def inTurn : List Event := (call 1 (reading "a" (1/2))++call 2 (reading "b" (3/4))).map (⟨"f",·⟩)

theorem sound_in_turn : Meets step InOrder inTurn started ∧ Sound (run step inTurn started "f") := by
  have horder : Meets step InOrder inTurn started := by decide +kernel
  exact ⟨horder,sound_of_in_order inTurn horder inTurn (List.prefix_refl _) "f"⟩

def atOnce : List Event :=
  ([.arrive (reading "a" (1/2)),.arrive (reading "b" (3/4)),.select 1,.select 2,.get 1,.get 2,
    .setex 1,.setex 2,.persist 1,.persist 2] : List Action).map (⟨"f",·⟩)

theorem two_incidents_at_once :
    (run step atOnce started "f").rows.map (fun row => (row.incidentId,row.eventCount)) =
      [(0,1),(1,1)] ∧
      ¬Sound (run step atOnce started "f") := by
  refine ⟨by decide +kernel,fun h => ?_⟩
  have hsingle := h.single
  revert hsingle
  decide +kernel

end Iotistica.CloudIncidents
