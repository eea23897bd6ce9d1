import Iotistica.EdgeIncidents

/-!
# Counting of an agent's incidents

A fingerprint has one unresolved incident, which has counted the events since
its creation. Alerts keep their distance unless one was raised when the clock
showed 0, which is read as no alert at all.
-/

set_option autoImplicit false

namespace Iotistica.EdgeIncidents
open Iotistica.GuardedRun Iotistica.KeyedTable

section
variable {α β : Type*} [LinearOrder β]

def Largest (value : α → β) (top : β) (l : List α) : Prop :=
  (∃ e ∈ l, value e = top) ∧ ∀ e ∈ l, value e ≤ top

theorem largest_singleton (value : α → β) (e : α) : Largest value (value e) [e] := by
  refine ⟨⟨e,List.mem_singleton.mpr rfl,rfl⟩,fun x hx => ?_⟩
  obtain rfl := List.mem_singleton.mp hx
  exact le_refl _

theorem largest_concat {value : α → β} {top : β} {l : List α} (h : Largest value top l) (e : α) :
    Largest value (max top (value e)) (l++[e]) := by
  obtain ⟨⟨x,hx,htop⟩,hle⟩ := h
  refine ⟨?_,fun y hy => ?_⟩
  · rcases le_total top (value e) with hnew | hold
    · exact ⟨e,List.mem_append_right _ (List.mem_singleton.mpr rfl),(max_eq_right hnew).symm⟩
    · exact ⟨x,List.mem_append_left _ hx,htop.trans (max_eq_left hold).symm⟩
  · rcases List.mem_append.mp hy with hy | hy
    · exact le_trans (hle y hy) (le_max_left _ _)
    · obtain rfl := List.mem_singleton.mp hy
      exact le_max_right _ _

end

def eventRank (e : AnomalyEventPayload) : ℕ := severityRank e.severity

structure Tally (v : Incident) (events : List AnomalyEventPayload) : Prop where
  count : v.eventCount = events.length
  severity : Largest eventRank (severityRank v.severity) events
  score : Largest AnomalyEventPayload.anomalyScore v.maxAnomalyScore events
  confidence : Largest AnomalyEventPayload.confidence v.maxConfidence events

/-- The events of an incident's fingerprint from its creation on, among the
first ones that were processed. -/
def eventsUntil (s : State) (v : Incident) (after : ℕ) : List AnomalyEventPayload :=
  ((s.processed.take after).drop (s.createdAfter v.incidentId)).filter
    (fun e => e.fingerprint = v.fingerprint)

def since (s : State) (v : Incident) : List AnomalyEventPayload :=
  (s.processed.drop (s.createdAfter v.incidentId)).filter (fun e => e.fingerprint = v.fingerprint)

/-- The events that an incident had at an earlier time satisfy `P`. -/
def Past (s : State) (incidentId after : ℕ) (P : List AnomalyEventPayload → Prop) : Prop :=
  after ≤ s.processed.length ∧
    ∃ v ∈ s.incidents.rows, v.incidentId = incidentId ∧ P (eventsUntil s v after)

def Due (severity : Severity) (events : List AnomalyEventPayload) : Prop :=
  Largest eventRank (severityRank severity) events ∧ alertThreshold severity ≤ events.length

def Silent (clock : ℤ) (events : List AnomalyEventPayload) : Prop :=
  events ≠ [] ∧ (events.Pairwise (fun a b => a.timestampMs ≤ b.timestampMs) →
    ∀ e ∈ events, e.timestampMs < clock-silenceWindowMs)

def Apart (a b : Alert) : Prop :=
  a.incidentId = b.incidentId → a.raisedAt+alertCooldownMs ≤ b.raisedAt

structure WellFormed (s : State) : Prop where
  single : ∀ v ∈ s.incidents.rows, ∀ w ∈ s.incidents.rows, v.unresolved = true →
    w.unresolved = true → v.fingerprint = w.fingerprint → v = w
  tallied : ∀ v ∈ s.incidents.rows, v.unresolved = true → Tally v (since s v)
  active : ∀ v ∈ s.incidents.rows, v.unresolved = true →
    (v.status = .active ↔ activeThreshold ≤ (since s v).length)
  apart : s.alerts.Pairwise Apart
  due : ∀ a ∈ s.alerts, Past s a.incidentId a.raisedAfter (Due a.severity)
  silent : ∀ r ∈ s.silenced, Past s r.incidentId r.after (Silent r.clock)

/-- An event that raises another alert of an incident whose last one was
raised when the clock showed 0 comes at least an hour later. -/
def Spaced (s : State) : Event → Prop
  | .processEvent payload now => payload.metric ≠ "" → payload.fingerprint ≠ "" →
      ∀ v ∈ findActiveByFingerprint s payload.fingerprint, v.lastAlertAt = some 0 →
        alertThreshold (escalateSeverity v.severity payload.severity) ≤ v.eventCount+1 →
          alertCooldownMs ≤ now
  | _ => True

instance (s : State) : (e : Event) → Decidable (Spaced s e)
  | .processEvent payload now => inferInstanceAs (Decidable (payload.metric ≠ "" →
      payload.fingerprint ≠ "" → ∀ v ∈ findActiveByFingerprint s payload.fingerprint,
        v.lastAlertAt = some 0 →
          alertThreshold (escalateSeverity v.severity payload.severity) ≤ v.eventCount+1 →
            alertCooldownMs ≤ now))
  | .checkSilentResolutions _ => .isTrue trivial
  | .resolve _ _ _ _ => .isTrue trivial

theorem severityRank_escalate (current incoming : Severity) :
    severityRank (escalateSeverity current incoming) =
      max (severityRank current) (severityRank incoming) := by
  unfold escalateSeverity
  split
  · omega
  · omega

theorem tally_new (payload : AnomalyEventPayload) (now : ℤ) (id : ℕ) :
    Tally (newIncident payload now id) [payload] where
  count := rfl
  severity := largest_singleton eventRank payload
  score := largest_singleton _ payload
  confidence := largest_singleton _ payload

theorem tally_counted {v : Incident} {events : List AnomalyEventPayload} (h : Tally v events)
    (payload : AnomalyEventPayload) : Tally (counted v payload) (events++[payload]) where
  count := by simp [counted, h.count]
  severity := by
    show Largest eventRank (severityRank (escalateSeverity v.severity payload.severity)) _
    rw [severityRank_escalate]
    exact largest_concat h.severity payload
  score := largest_concat h.score payload
  confidence := largest_concat h.confidence payload

theorem Tally.congr {v w : Incident} {events : List AnomalyEventPayload} (h : Tally v events)
    (hcount : w.eventCount = v.eventCount) (hseverity : w.severity = v.severity)
    (hscore : w.maxAnomalyScore = v.maxAnomalyScore)
    (hconfidence : w.maxConfidence = v.maxConfidence) : Tally w events where
  count := hcount.trans h.count
  severity := by
    rw [hseverity]
    exact h.severity
  score := by
    rw [hscore]
    exact h.score
  confidence := by
    rw [hconfidence]
    exact h.confidence

theorem le_getLast? {events : List AnomalyEventPayload} {last : AnomalyEventPayload}
    (hlast : events.getLast? = some last)
    (hsorted : events.Pairwise (fun a b => a.timestampMs ≤ b.timestampMs)) :
    ∀ e ∈ events, e.timestampMs ≤ last.timestampMs := by
  obtain ⟨front,rfl⟩ := List.getLast?_eq_some_iff.mp hlast
  rw [List.pairwise_append] at hsorted
  intro e he
  rcases List.mem_append.mp he with he | he
  · exact hsorted.2.2 e he last (List.mem_singleton.mpr rfl)
  · obtain rfl := List.mem_singleton.mp he
    exact le_refl _

section
variable {s : State} {v : Incident}

theorem eventsUntil_length (s : State) (v : Incident) :
    eventsUntil s v s.processed.length = since s v := by
  unfold eventsUntil since
  rw [List.take_length]

theorem since_log (hborn : s.createdAfter v.incidentId ≤ s.processed.length)
    (payload : AnomalyEventPayload) :
    since (log s payload) v =
      since s v++(if payload.fingerprint = v.fingerprint then [payload] else []) := by
  show ((s.processed++[payload]).drop (s.createdAfter v.incidentId)).filter _ = _
  rw [List.drop_append_of_le_length hborn, List.filter_append, List.filter_singleton]
  simp only [since, Bool.cond_decide]

structure Extends (s s' : State) : Prop where
  rows : ∀ v ∈ s.incidents.rows, ∃ w ∈ s'.incidents.rows,
    w.incidentId = v.incidentId ∧ w.fingerprint = v.fingerprint
  created : ∀ v ∈ s.incidents.rows, s'.createdAfter v.incidentId = s.createdAfter v.incidentId
  processed : s.processed <+: s'.processed

theorem Extends.past {s' : State} (h : Extends s s') {incidentId after : ℕ}
    {P : List AnomalyEventPayload → Prop} (hp : Past s incidentId after P) :
    Past s' incidentId after P := by
  obtain ⟨hle,v,hv,rfl,hP⟩ := hp
  obtain ⟨w,hw,hid,hfp⟩ := h.rows v hv
  refine ⟨hle.trans h.processed.length_le,w,hw,hid,?_⟩
  have hsame : eventsUntil s' w after = eventsUntil s v after := by
    unfold eventsUntil
    rw [hid, hfp, h.created v hv, List.prefix_iff_eq_take.mp h.processed, List.take_take,
      Nat.min_eq_left hle]
  rw [hsame]
  exact hP

end

structure RowInv (s : State) (v : Incident) : Prop where
  born : s.createdAfter v.incidentId ≤ s.processed.length
  tallied : v.unresolved = true → Tally v (since s v)
  active : v.unresolved = true → (v.status = .active ↔ activeThreshold ≤ v.eventCount)
  newest : v.unresolved = true → ∃ e, (since s v).getLast? = some e ∧ e.timestampMs = v.lastSeen
  quiet : v.lastAlertAt = none → ∀ a ∈ s.alerts, a.incidentId ≠ v.incidentId
  alerted : ∀ last ∈ v.lastAlertAt,
    (∃ a ∈ s.alerts, a.incidentId = v.incidentId ∧ a.raisedAt = last) ∧
      ∀ a ∈ s.alerts, a.incidentId = v.incidentId → a.raisedAt ≤ last

structure Inv (s : State) : Prop where
  single : ∀ v ∈ s.incidents.rows, ∀ w ∈ s.incidents.rows, v.unresolved = true →
    w.unresolved = true → v.fingerprint = w.fingerprint → v = w
  rows : ∀ v ∈ s.incidents.rows, RowInv s v
  apart : s.alerts.Pairwise Apart
  due : ∀ a ∈ s.alerts, Past s a.incidentId a.raisedAfter (Due a.severity)
  silent : ∀ r ∈ s.silenced, Past s r.incidentId r.after (Silent r.clock)

theorem Inv.wellFormed {s : State} (h : Inv s) : WellFormed s where
  single := h.single
  tallied := fun v hv hopen => (h.rows v hv).tallied hopen
  active := fun v hv hopen => by
    rw [← ((h.rows v hv).tallied hopen).count]
    exact (h.rows v hv).active hopen
  apart := h.apart
  due := h.due
  silent := h.silent

theorem inv_started : Inv started where
  single := fun _ hv => absurd hv List.not_mem_nil
  rows := fun _ hv => absurd hv List.not_mem_nil
  apart := List.Pairwise.nil
  due := fun _ ha => absurd ha List.not_mem_nil
  silent := fun _ hr => absurd hr List.not_mem_nil

section
variable {s : State}

theorem Inv.resolving (h : Inv s) (p : Incident → Bool) (f : Incident → Incident)
    (hid : ∀ r, (f r).incidentId = r.incidentId) (hfp : ∀ r, (f r).fingerprint = r.fingerprint)
    (halert : ∀ r, (f r).lastAlertAt = r.lastAlertAt) (hresolved : ∀ r, (f r).unresolved = false)
    {more : List Silenced}
    (hmore : ∀ r ∈ more, Past s r.incidentId r.after (Silent r.clock)) :
    Inv { s with
      incidents := s.incidents.update p f hid
      silenced := s.silenced++more } := by
  have hext : Extends s { s with
      incidents := s.incidents.update p f hid, silenced := s.silenced++more } := by
    refine ⟨fun v hv => ⟨_,(Table.mem_update _ _ _ hid _).mpr ⟨v,hv,rfl⟩,?_⟩,fun _ _ => rfl,
      List.prefix_refl _⟩
    split
    · exact ⟨hid v,hfp v⟩
    · exact ⟨rfl,rfl⟩
  -- an unresolved row was left alone
  have hrow : ∀ w ∈ (s.incidents.update p f hid).rows, ∃ v ∈ s.incidents.rows,
      w.incidentId = v.incidentId ∧ w.lastAlertAt = v.lastAlertAt ∧
        (w.unresolved = true → w = v) := by
    intro w hw
    obtain ⟨v,hv,rfl⟩ := (Table.mem_update _ _ _ hid _).mp hw
    refine ⟨v,hv,?_⟩
    split
    · exact ⟨hid v,halert v,fun hopen => absurd hopen (by rw [hresolved]; exact Bool.false_ne_true)⟩
    · exact ⟨rfl,rfl,fun _ => rfl⟩
  refine ⟨fun v hv w hw hvo hwo hsame => ?_,fun w hw => ?_,h.apart,
    fun a ha => hext.past (h.due a ha),fun r hr => hext.past ?_⟩
  · obtain ⟨v',hv',-,-,hvv⟩ := hrow v hv
    obtain ⟨w',hw',-,-,hww⟩ := hrow w hw
    obtain rfl := hvv hvo
    obtain rfl := hww hwo
    exact h.single v hv' w hw' hvo hwo hsame
  · obtain ⟨v,hv,hwid,hwa,hopen⟩ := hrow w hw
    obtain ⟨hborn,htally,hactive,hnewest,hquiet,halerted⟩ := h.rows v hv
    refine ⟨?_,fun hwo => ?_,fun hwo => ?_,fun hwo => ?_,fun hnone => ?_,fun last hlast => ?_⟩
    · show s.createdAfter w.incidentId ≤ _
      rw [hwid]
      exact hborn
    · obtain rfl := hopen hwo
      exact htally hwo
    · obtain rfl := hopen hwo
      exact hactive hwo
    · obtain rfl := hopen hwo
      exact hnewest hwo
    · rw [hwid]
      exact hquiet (hwa.symm.trans hnone)
    · rw [hwid]
      rw [hwa] at hlast
      exact halerted last hlast
  · rcases List.mem_append.mp hr with hr | hr
    · exact h.silent r hr
    · exact hmore r hr

theorem inv_resolve (h : Inv s) (incidentId : ℕ) (resolvedBy : String) (notes : Option String)
    (now : ℤ) : Inv (resolve s incidentId resolvedBy notes now) := by
  have hnobody : ∀ r ∈ ([] : List Silenced), Past s r.incidentId r.after (Silent r.clock) :=
    fun _ hr => absurd hr List.not_mem_nil
  have hdone := h.resolving (fun row => row.incidentId = incidentId && row.unresolved)
    (fun row => { row with
      status := .resolved
      acknowledgedAt := some now
      acknowledgedBy := some resolvedBy
      resolutionNotes := notes }) (fun _ => rfl) (fun _ => rfl) (fun _ => rfl) (fun _ => rfl) hnobody
  rw [List.append_nil] at hdone
  exact hdone

theorem inv_checkSilentResolutions (h : Inv s) (now : ℤ) : Inv (checkSilentResolutions s now) := by
  refine h.resolving (stale (now-silenceWindowMs)) (fun row => { row with status := .resolved })
    (fun _ => rfl) (fun _ => rfl) (fun _ => rfl) (fun _ => rfl) (fun r hr => ?_)
  obtain ⟨v,hv,rfl⟩ := List.mem_map.mp hr
  obtain ⟨hv,hstale⟩ := (Table.mem_select _ _ _).mp hv
  simp only [stale, Bool.and_eq_true, decide_eq_true_eq] at hstale
  obtain ⟨e,hlast,htime⟩ := (h.rows v hv).newest hstale.1
  refine ⟨Nat.le_refl _,v,hv,rfl,?_⟩
  rw [eventsUntil_length]
  refine ⟨?_,fun hsorted x hx => ?_⟩
  · intro hnil
    rw [hnil] at hlast
    cases hlast
  · have hle := le_getLast? hlast hsorted x hx
    show x.timestampMs < now-silenceWindowMs
    omega

end

def Incident.seenAt (v : Incident) (timestampMs : ℤ) : Incident := { v with lastSeen := timestampMs }

section
variable {s : State} {payload : AnomalyEventPayload} {now : ℤ}

theorem find_some {fingerprint : String} {v : Incident}
    (h : findActiveByFingerprint s fingerprint = some v) :
    v ∈ s.incidents.rows ∧ v.fingerprint = fingerprint ∧ v.unresolved = true := by
  have hmem := List.mem_of_mem_head? h
  rw [List.mem_insertionSort, Table.mem_select, Bool.and_eq_true, decide_eq_true_eq] at hmem
  exact hmem

theorem find_none {fingerprint : String} (h : findActiveByFingerprint s fingerprint = none) :
    ∀ v ∈ s.incidents.rows, v.unresolved = true → v.fingerprint ≠ fingerprint := by
  intro v hv hopen hfp
  have hempty := List.head?_eq_none_iff.mp h
  have hmem : v ∈ (s.incidents.select
      (fun v => v.fingerprint = fingerprint && v.unresolved)).insertionSort
        (fun a b => b.createdAt ≤ a.createdAt) := by
    rw [List.mem_insertionSort, Table.mem_select, Bool.and_eq_true, decide_eq_true_eq]
    exact ⟨hv,hfp,hopen⟩
  rw [hempty] at hmem
  exact List.not_mem_nil hmem

theorem RowInv.other {s' : State} {v : Incident} (h : RowInv s v)
    (hcreated : s'.createdAfter v.incidentId = s.createdAfter v.incidentId)
    (hprocessed : s'.processed = s.processed++[payload]) (halerts : s'.alerts = s.alerts)
    (hother : v.unresolved = true → payload.fingerprint ≠ v.fingerprint) : RowInv s' v := by
  obtain ⟨hborn,htally,hactive,hnewest,hquiet,halerted⟩ := h
  have hsince : v.unresolved = true → since s' v = since s v := by
    intro hopen
    have hlog := since_log hborn payload
    rw [if_neg (hother hopen), List.append_nil] at hlog
    rw [← hlog]
    unfold since
    rw [hcreated, hprocessed]
    rfl
  refine ⟨?_,fun hopen => ?_,hactive,fun hopen => ?_,?_,?_⟩
  · rw [hcreated, hprocessed, List.length_append]
    omega
  · rw [hsince hopen]
    exact htally hopen
  · rw [hsince hopen]
    exact hnewest hopen
  · rw [halerts]
    exact hquiet
  · rw [halerts]
    exact halerted

theorem inv_create (h : Inv s) (hnone : findActiveByFingerprint s payload.fingerprint = none) :
    Inv (log (create s payload now) payload) := by
  have hold : ∀ v ∈ s.incidents.rows,
      (create s payload now).createdAfter v.incidentId = s.createdAfter v.incidentId :=
    fun v hv => if_neg (s.incidents.below v hv).ne
  have hnext : (create s payload now).createdAfter s.incidents.next = s.processed.length :=
    if_pos rfl
  have hmem : ∀ v, v ∈ (create s payload now).incidents.rows ↔
      v ∈ s.incidents.rows ∨ v = newIncident payload now s.incidents.next :=
    Table.mem_insert _ _ (fun _ => rfl)
  have hext : Extends s (log (create s payload now) payload) :=
    ⟨fun v hv => ⟨v,(hmem v).mpr (Or.inl hv),rfl,rfl⟩,hold,List.prefix_append _ _⟩
  have hfree := find_none hnone
  refine ⟨fun v hv w hw hvo hwo hsame => ?_,fun v hv => ?_,h.apart,
    fun a ha => hext.past (h.due a ha),fun r hr => hext.past (h.silent r hr)⟩
  · rcases (hmem v).mp hv with hv | rfl
    · rcases (hmem w).mp hw with hw | rfl
      · exact h.single v hv w hw hvo hwo hsame
      · exact absurd hsame (hfree v hv hvo)
    · rcases (hmem w).mp hw with hw | rfl
      · exact absurd hsame.symm (hfree w hw hwo)
      · rfl
  · rcases (hmem v).mp hv with hv | rfl
    · exact (h.rows v hv).other (hold v hv) rfl rfl (fun hopen => (hfree v hv hopen).symm)
    · have hsince : since (log (create s payload now) payload)
          (newIncident payload now s.incidents.next) = [payload] := by
        show ((s.processed++[payload]).drop ((create s payload now).createdAfter s.incidents.next)).filter
          (fun e => e.fingerprint = payload.fingerprint) = [payload]
        rw [hnext, List.drop_left, List.filter_singleton, decide_eq_true rfl]
        rfl
      refine ⟨?_,fun _ => ?_,fun _ => ?_,fun _ => ?_,fun _ a ha hid => ?_,fun last hlast => ?_⟩
      · show (create s payload now).createdAfter s.incidents.next ≤ (s.processed++[payload]).length
        rw [hnext, List.length_append]
        omega
      · rw [hsince]
        exact tally_new payload now s.incidents.next
      · show Status.opened = .active ↔ 3 ≤ 1
        simp
      · rw [hsince]
        exact ⟨payload,rfl,rfl⟩
      · obtain ⟨-,v,hv,hvid,-⟩ := h.due a ha
        exact (s.incidents.below v hv).ne (hvid.trans hid)
      · cases hlast

theorem counted_unresolved {v : Incident} (h : v.unresolved = true) :
    (counted v payload).unresolved = true := by
  show decide ((if activeThreshold ≤ v.eventCount+1 then Status.active else v.status) ≠ .resolved) = _
  split
  · rfl
  · exact h

theorem inv_updateByEvent (h : Inv s) {v : Incident}
    (hsome : findActiveByFingerprint s payload.fingerprint = some v) :
    Inv (log (updateByEvent s v.incidentId (counted v payload) payload.timestampMs) payload) ∧
      (counted v payload).seenAt payload.timestampMs ∈
        (updateByEvent s v.incidentId (counted v payload) payload.timestampMs).incidents.rows := by
  obtain ⟨hv,hvfp,hvopen⟩ := find_some hsome
  have hmem : ∀ w, w ∈
      (updateByEvent s v.incidentId (counted v payload) payload.timestampMs).incidents.rows ↔
        (w = (counted v payload).seenAt payload.timestampMs ∨
          (w ∈ s.incidents.rows ∧ w.incidentId ≠ v.incidentId)) := by
    unfold updateByEvent
    exact s.incidents.mem_update_key hv _ (by intro row; rfl)
  have hext : Extends s
      (log (updateByEvent s v.incidentId (counted v payload) payload.timestampMs) payload) := by
    refine ⟨fun r hr => ?_,fun _ _ => rfl,List.prefix_append _ _⟩
    by_cases hid : r.incidentId = v.incidentId
    · obtain rfl := s.incidents.key_unique hr hv hid
      exact ⟨_,(hmem _).mpr (Or.inl rfl),rfl,rfl⟩
    · exact ⟨r,(hmem r).mpr (Or.inr ⟨hr,hid⟩),rfl,rfl⟩
  -- another unresolved row has another fingerprint
  have hother : ∀ r ∈ s.incidents.rows, r.incidentId ≠ v.incidentId → r.unresolved = true →
      payload.fingerprint ≠ r.fingerprint := by
    intro r hr hid hopen hfp
    exact hid (congrArg Incident.incidentId (h.single r hr v hv hopen hvopen (hfp.symm.trans hvfp.symm)))
  refine ⟨⟨fun w hw x hx hwo hxo hsame => ?_,fun w hw => ?_,h.apart,
    fun a ha => hext.past (h.due a ha),fun r hr => hext.past (h.silent r hr)⟩,
    (hmem _).mpr (Or.inl rfl)⟩
  · rcases (hmem w).mp hw with rfl | ⟨hw,hwid⟩
    · rcases (hmem x).mp hx with rfl | ⟨hx,hxid⟩
      · rfl
      · exact absurd (hvfp.symm.trans hsame) (hother x hx hxid hxo)
    · rcases (hmem x).mp hx with rfl | ⟨hx,hxid⟩
      · exact absurd (hvfp.symm.trans hsame.symm) (hother w hw hwid hwo)
      · exact h.single w hw x hx hwo hxo hsame
  · rcases (hmem w).mp hw with rfl | ⟨hw,hwid⟩
    · obtain ⟨hborn,htally,hactive,-,hquiet,halerted⟩ := h.rows v hv
      have hsince : since
          (log (updateByEvent s v.incidentId (counted v payload) payload.timestampMs) payload)
          ((counted v payload).seenAt payload.timestampMs) = since s v++[payload] := by
        have hlog := since_log hborn payload
        rw [if_pos hvfp.symm] at hlog
        exact hlog
      refine ⟨?_,fun _ => ?_,fun _ => ?_,fun _ => ?_,hquiet,halerted⟩
      · show s.createdAfter v.incidentId ≤ (s.processed++[payload]).length
        rw [List.length_append]
        omega
      · rw [hsince]
        exact (tally_counted (htally hvopen) payload).congr rfl rfl rfl rfl
      · show (if activeThreshold ≤ v.eventCount+1 then Status.active else v.status) = .active ↔
          activeThreshold ≤ v.eventCount+1
        split
        · next hle => exact iff_of_true rfl hle
        · next hle =>
          have hlow : ¬activeThreshold ≤ v.eventCount := fun hle' => hle (Nat.le_succ_of_le hle')
          exact iff_of_false (fun hstatus => hlow ((hactive hvopen).mp hstatus)) hle
      · rw [hsince]
        exact ⟨payload,List.getLast?_concat,rfl⟩
    · exact (h.rows w hw).other rfl rfl rfl (hother w hw hwid)

theorem inv_count (h : Inv s) : Inv (log (count s payload now).2 payload) ∧
    (count s payload now).1.unresolved = true ∧
      (count s payload now).1.seenAt payload.timestampMs ∈
        (count s payload now).2.incidents.rows := by
  unfold count
  cases hfind : findActiveByFingerprint s payload.fingerprint with
  | none =>
    refine ⟨inv_create h hfind,rfl,?_⟩
    exact (Table.mem_insert _ _ (fun _ => rfl) _).mpr (Or.inr rfl)
  | some v =>
    obtain ⟨hinv,hrow⟩ := inv_updateByEvent h hfind
    exact ⟨hinv,counted_unresolved (find_some hfind).2.2,hrow⟩

theorem alerts_back {v : Incident} (h : RowInv s v)
    (hspaced : ∀ last ∈ v.lastAlertAt, last+alertCooldownMs ≤ now) :
    ∀ a ∈ s.alerts, a.incidentId = v.incidentId → a.raisedAt+alertCooldownMs ≤ now := by
  intro a ha hid
  cases hlast : v.lastAlertAt with
  | none => exact absurd hid (h.quiet hlast a ha)
  | some last =>
    have hle := (h.alerted last hlast).2 a ha hid
    have hspace := hspaced last hlast
    omega

theorem mem_promote (numbers : Numbers) {v w : Incident} :
    w ∈ (promote numbers s v payload now).incidents.rows ↔ ∃ r ∈ s.incidents.rows,
      (if r.incidentId = v.incidentId then { r with lastAlertAt := some now } else r) = w := by
  unfold promote setLastAlertAt
  simp only [Table.mem_update, decide_eq_true_eq]

theorem promoted_row (numbers : Numbers) {v r : Incident} (h : RowInv s r)
    (hid : r.incidentId = v.incidentId)
    (hback : ∀ a ∈ s.alerts, a.incidentId = v.incidentId → a.raisedAt+alertCooldownMs ≤ now) :
    RowInv (promote numbers s v payload now) { r with lastAlertAt := some now } := by
  obtain ⟨hborn,htally,hactive,hnewest,-,-⟩ := h
  refine ⟨hborn,fun ho => (htally ho).congr rfl rfl rfl rfl,hactive,hnewest,
    fun hnone => (Option.some_ne_none now hnone).elim,fun last hlast => ?_⟩
  obtain rfl := Option.some.inj hlast
  refine ⟨⟨_,List.mem_append_right _ (List.mem_singleton.mpr rfl),hid.symm,rfl⟩,fun a ha haid => ?_⟩
  rcases List.mem_append.mp ha with ha | ha
  · have hle := hback a ha (haid.trans hid)
    have hhour : 0 ≤ alertCooldownMs := by decide
    omega
  · obtain rfl := List.mem_singleton.mp ha
    exact le_refl _

theorem unpromoted_row (numbers : Numbers) {v r : Incident} (h : RowInv s r)
    (hid : r.incidentId ≠ v.incidentId) : RowInv (promote numbers s v payload now) r := by
  obtain ⟨hborn,htally,hactive,hnewest,hquiet,halerted⟩ := h
  refine ⟨hborn,htally,hactive,hnewest,fun hnone a ha => ?_,fun last hlast => ?_⟩
  · rcases List.mem_append.mp ha with ha | ha
    · exact hquiet hnone a ha
    · obtain rfl := List.mem_singleton.mp ha
      exact fun he => hid he.symm
  · obtain ⟨⟨a,ha,haid,hraised⟩,hle⟩ := halerted last hlast
    refine ⟨⟨a,List.mem_append_left _ ha,haid,hraised⟩,fun a ha haid => ?_⟩
    rcases List.mem_append.mp ha with ha | ha
    · exact hle a ha haid
    · obtain rfl := List.mem_singleton.mp ha
      exact absurd haid.symm hid

theorem inv_promote (h : Inv s) (numbers : Numbers) {v : Incident} {t : ℤ}
    (hv : v.seenAt t ∈ s.incidents.rows) (hopen : v.unresolved = true)
    (hdue : alertThreshold v.severity ≤ v.eventCount)
    (hspaced : ∀ last ∈ v.lastAlertAt, last+alertCooldownMs ≤ now) :
    Inv (promote numbers s v payload now) := by
  have hext : Extends s (promote numbers s v payload now) := by
    refine ⟨fun r hr => ⟨_,(mem_promote numbers).mpr ⟨r,hr,rfl⟩,?_⟩,fun _ _ => rfl,
      List.prefix_refl _⟩
    split
    · exact ⟨rfl,rfl⟩
    · exact ⟨rfl,rfl⟩
  have htally : Tally v (since s v) :=
    ((h.rows _ hv).tallied hopen).congr rfl rfl rfl rfl
  have hback : ∀ a ∈ s.alerts, a.incidentId = v.incidentId → a.raisedAt+alertCooldownMs ≤ now :=
    alerts_back (v := v.seenAt t) (h.rows _ hv) hspaced
  refine ⟨fun w hw x hx hwo hxo hsame => ?_,fun w hw => ?_,?_,fun a ha => ?_,
    fun r hr => hext.past (h.silent r hr)⟩
  · obtain ⟨r,hr,rfl⟩ := (mem_promote numbers).mp hw
    obtain ⟨q,hq,rfl⟩ := (mem_promote numbers).mp hx
    have hcolumns : ∀ r : Incident,
        (if r.incidentId = v.incidentId then { r with lastAlertAt := some now } else r).unresolved =
          r.unresolved ∧
        (if r.incidentId = v.incidentId then { r with lastAlertAt := some now } else r).fingerprint =
          r.fingerprint := by
      intro r
      split
      · exact ⟨rfl,rfl⟩
      · exact ⟨rfl,rfl⟩
    rw [(hcolumns r).1] at hwo
    rw [(hcolumns q).1] at hxo
    rw [(hcolumns r).2, (hcolumns q).2] at hsame
    rw [h.single r hr q hq hwo hxo hsame]
  · obtain ⟨r,hr,rfl⟩ := (mem_promote numbers).mp hw
    by_cases hid : r.incidentId = v.incidentId
    · rw [if_pos hid]
      exact promoted_row numbers (h.rows r hr) hid hback
    · rw [if_neg hid]
      exact unpromoted_row numbers (h.rows r hr) hid
  · refine List.pairwise_append.mpr ⟨h.apart,List.pairwise_singleton _ _,fun a ha b hb => ?_⟩
    obtain rfl := List.mem_singleton.mp hb
    exact hback a ha
  · rcases List.mem_append.mp ha with ha | ha
    · exact hext.past (h.due a ha)
    · obtain rfl := List.mem_singleton.mp ha
      refine hext.past ⟨Nat.le_refl _,v.seenAt t,hv,rfl,?_⟩
      rw [eventsUntil_length]
      refine ⟨htally.severity,?_⟩
      rw [← show v.eventCount = (since s (v.seenAt t)).length from htally.count]
      exact hdue

end

section
variable {s : State} {numbers : Numbers} {payload : AnomalyEventPayload} {now : ℤ}

theorem coolingDown_eq_false {last : ℤ} :
    coolingDown (some last) now = false ↔ last = 0 ∨ last+alertCooldownMs ≤ now := by
  simp only [coolingDown, Bool.and_eq_false_iff, decide_eq_false_iff_not, not_not, not_lt]
  refine or_congr Iff.rfl ?_
  omega

theorem count_alerted {last : ℤ} (h : (count s payload now).1.lastAlertAt = some last) :
    ∃ v, findActiveByFingerprint s payload.fingerprint = some v ∧ v.lastAlertAt = some last ∧
      (count s payload now).1 = counted v payload := by
  unfold count at h ⊢
  cases hfind : findActiveByFingerprint s payload.fingerprint with
  | none =>
    rw [hfind] at h
    cases h
  | some v =>
    rw [hfind] at h
    exact ⟨v,rfl,h,rfl⟩

theorem inv_step (h : Inv s) (e : Event) (hok : Spaced s e) : Inv (step numbers s e) := by
  cases e with
  | processEvent payload now =>
    show Inv (processEvent numbers s payload now)
    unfold processEvent
    split
    · exact h
    · next hvalid =>
      obtain ⟨hinv,hopen,hrow⟩ := @inv_count s payload now h
      unfold maybePromote
      split
      · exact hinv
      · next hdue =>
        split
        · exact hinv
        · next hcool =>
          refine inv_promote hinv numbers hrow hopen (Nat.le_of_not_lt hdue) (fun last hlast => ?_)
          rw [Option.mem_def.mp hlast, Bool.not_eq_true, coolingDown_eq_false] at hcool
          rcases hcool with rfl | hcool
          · obtain ⟨v,hfind,hzero,hcount⟩ := count_alerted hlast
            rw [hcount] at hdue
            have hhour := hok (fun he => hvalid (Or.inl he)) (fun he => hvalid (Or.inr he)) v hfind
              hzero (Nat.le_of_not_lt hdue)
            omega
          · exact hcool
  | checkSilentResolutions now => exact inv_checkSilentResolutions h now
  | resolve incidentId resolvedBy notes now => exact inv_resolve h incidentId resolvedBy notes now

theorem spaced_of_apart (h : Inv s) (e : Event)
    (hapart : (step numbers s e).alerts.Pairwise Apart) : Spaced s e := by
  cases e with
  | processEvent payload now =>
    intro hmetric hfp v hfind hzero hdue
    obtain ⟨a,ha,haid,hraised⟩ := ((h.rows v (find_some hfind).1).alerted 0 hzero).1
    have hcount : (count s payload now).1 = counted v payload := by
      unfold count
      rw [hfind]
    have hreached : ¬(counted v payload).eventCount < alertThreshold (counted v payload).severity :=
      Nat.not_lt.mpr hdue
    have halerts : (step numbers s (.processEvent payload now)).alerts =
        (promote numbers (log (count s payload now).2 payload) (counted v payload) payload now).alerts := by
      show (processEvent numbers s payload now).alerts = _
      unfold processEvent maybePromote
      rw [if_neg (not_or.mpr ⟨hmetric,hfp⟩), hcount, if_neg hreached]
      have hcool : coolingDown (counted v payload).lastAlertAt now = false := by
        show coolingDown v.lastAlertAt now = false
        rw [hzero]
        exact coolingDown_eq_false.mpr (Or.inl rfl)
      rw [hcool]
      rfl
    have hold : (count s payload now).2.alerts = s.alerts := by
      unfold count
      rw [hfind]
      rfl
    rw [halerts] at hapart
    have hpair := (List.pairwise_append.mp hapart).2.2 a
      (show a ∈ (count s payload now).2.alerts by rw [hold]; exact ha) _ (List.mem_singleton.mpr rfl)
      haid
    rw [hraised] at hpair
    have hpair : 0+alertCooldownMs ≤ now := hpair
    omega
  | checkSilentResolutions now => trivial
  | resolve incidentId resolvedBy notes now => trivial

end

theorem well_formed_iff (numbers : Numbers) (es : List Event) :
    (∀ pre, pre <+: es → WellFormed (run (step numbers) pre started)) ↔
      Meets (step numbers) Spaced es started :=
  always_iff_meets_of_inv (I := Inv) (P := WellFormed) (fun _ e h hok => inv_step h e hok)
    (fun _ h => h.wellFormed) (fun _ e h hwf => spaced_of_apart h e hwf.apart) es started inv_started

def Event.clock : Event → ℤ
  | .processEvent _ now => now
  | .checkSilentResolutions now => now
  | .resolve _ _ _ now => now

section
variable {numbers : Numbers} {s : State}

theorem count_alerts (s : State) (payload : AnomalyEventPayload) (now : ℤ) :
    (count s payload now).2.alerts = s.alerts := by
  unfold count
  split <;> rfl

theorem raised_step (h : ∀ a ∈ s.alerts, 0 < a.raisedAt) (e : Event)
    (hclock : 0 < e.clock) : ∀ a ∈ (step numbers s e).alerts, 0 < a.raisedAt := by
  cases e with
  | processEvent payload now =>
    show ∀ a ∈ (processEvent numbers s payload now).alerts, 0 < a.raisedAt
    have hlog : ∀ a ∈ (log (count s payload now).2 payload).alerts, 0 < a.raisedAt := by
      show ∀ a ∈ (count s payload now).2.alerts, _
      rw [count_alerts]
      exact h
    unfold processEvent maybePromote
    split
    · exact h
    · split
      · exact hlog
      · split
        · exact hlog
        · intro a ha
          rcases List.mem_append.mp ha with ha | ha
          · exact hlog a ha
          · obtain rfl := List.mem_singleton.mp ha
            exact hclock
  | checkSilentResolutions now => exact h
  | resolve incidentId resolvedBy notes now => exact h

theorem spaced_of_raised (h : Inv s) (hraised : ∀ a ∈ s.alerts, 0 < a.raisedAt)
    (e : Event) : Spaced s e := by
  cases e with
  | processEvent payload now =>
    intro _ _ v hfind hzero _
    obtain ⟨⟨a,ha,-,hat⟩,-⟩ := (h.rows v (find_some hfind).1).alerted 0 hzero
    have hpos := hraised a ha
    omega
  | checkSilentResolutions now => trivial
  | resolve incidentId resolvedBy notes now => trivial

theorem spaced_of_clock {es : List Event} (hclock : ∀ e ∈ es, 0 < e.clock)
    (h : Inv s) (hraised : ∀ a ∈ s.alerts, 0 < a.raisedAt) : Meets (step numbers) Spaced es s := by
  induction es generalizing s with
  | nil => trivial
  | cons e es ih =>
    have hspaced := spaced_of_raised h hraised e
    exact ⟨hspaced,ih (fun e' he => hclock e' (List.mem_cons_of_mem _ he)) (inv_step h e hspaced)
      (raised_step hraised e (hclock e List.mem_cons_self))⟩

end

/-- A clock shows the time since 1970, which is past. -/
theorem well_formed (numbers : Numbers) (es : List Event) (hclock : ∀ e ∈ es, 0 < e.clock) :
    ∀ pre, pre <+: es → WellFormed (run (step numbers) pre started) :=
  (well_formed_iff numbers es).mpr
    (spaced_of_clock hclock inv_started (fun _ ha => absurd ha List.not_mem_nil))

def numbered : Numbers := ⟨fun _ => "0.90",fun _ => "91"⟩

def overheated (timestampMs : ℤ) : AnomalyEventPayload :=
  ⟨"cpu_temp","f",timestampMs,91,9/10,1/2,.critical,none,none⟩

def heatWave : List Event :=
  [.processEvent (overheated 1700000000000) 1700000000005,
    .processEvent (overheated 1700000060000) 1700000060005,
    .checkSilentResolutions 1700001900000,
    .processEvent (overheated 1700001960000) 1700001960005]

theorem heatWave_well_formed : (∀ e ∈ heatWave, 0 < e.clock) ∧
    WellFormed (run (step numbered) heatWave started) :=
  ⟨by decide,well_formed numbered heatWave (by decide) heatWave List.prefix_rfl⟩

end Iotistica.EdgeIncidents
