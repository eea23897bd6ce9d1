import Iotistica.GuardedRun

/-!
# The queue of offline publishes

A message that is published while the client is not connected is queued, and
each connection drains the queue. The drain collects what fails in a list of
its own and puts it back before it returns. A callback that comes later still
pushes into that list, which nobody reads any more.
-/

set_option autoImplicit false

namespace Iotistica.OfflinePublishes
open Iotistica.GuardedRun

def maxPendingPublishes : ℕ := 1000

def maxPublishRetries : ℕ := 3

/-- `id` counts the messages that were queued. -/
structure Publish where
  id : ℕ
  topic : String
  payload : String
  qos : ℕ
  retryCount : ℕ
  deriving DecidableEq

/-- `failures` has an id for each callback with an error, `evictions` the id
that was shifted out and the ids of the queue it was shifted out of. -/
structure State where
  connected : Bool
  pendingPublishes : List Publish
  awaiting : List Publish
  nextId : ℕ
  confirmed : List ℕ
  discarded : List ℕ
  failures : List ℕ
  evictions : List (ℕ × List ℕ)

def started : State := ⟨false,[],[],0,[],[],[],[]⟩

/-- What the client does with a message of a drain before the drain goes on:
it turns out not to be connected, it calls back at once with or without an
error, or it keeps the callback for later. -/
inductive Answer where
  | offline
  | confirmed
  | failed
  | later
  deriving DecidableEq

inductive Event where
  | publish (topic payload : String) (qos : Option ℕ)
  /-- The client connects, and answers the messages of the drain in turn. -/
  | connect (answers : List Answer)
  | disconnect
  /-- A callback that was kept is called. -/
  | callback (id : ℕ) (err : Bool)
  deriving DecidableEq

def shiftFull (s : State) : State :=
  if maxPendingPublishes ≤ s.pendingPublishes.length then
    match s.pendingPublishes with
    | [] => s
    | m::rest =>
      { s with
        pendingPublishes := rest
        evictions := (m.id,(m::rest).map Publish.id)::s.evictions }
  else s

/-- A message that finds the client connected has a callback and a timeout
of its own and never comes into the queue. -/
def publish (configQos : ℕ) (s : State) (topic payload : String) (qos : Option ℕ) : State :=
  if s.connected then s
  else
    let shifted := shiftFull s
    { shifted with
      pendingPublishes := shifted.pendingPublishes++
        [⟨shifted.nextId,topic,payload,qos.getD configQos,0⟩]
      nextId := shifted.nextId+1 }

/-- The callback of a drained message: what it records, and what it pushes
into the list of failed messages. -/
def published (s : State) (m : Publish) (err : Bool) : State × List Publish :=
  if err then
    let counted := { s with failures := m.id::s.failures }
    if m.retryCount+1 < maxPublishRetries then
      (counted,[{ m with retryCount := m.retryCount+1 }])
    else ({ counted with discarded := m.id::s.discarded },[])
  else ({ s with confirmed := m.id::s.confirmed },[])

def attempt (s : State) (m : Publish) : Answer → State × List Publish
  | .offline => (s,[m])
  | .confirmed => published s m false
  | .failed => published s m true
  | .later => ({ s with awaiting := m::s.awaiting },[])

def drainMessages : List Publish → List Answer → State × List Publish → State × List Publish
  | [], _, done => done
  | m::rest, answers, done =>
    let next := attempt done.1 m (answers.headD .later)
    drainMessages rest answers.tail (next.1,done.2++next.2)

def drainPendingPublishes (s : State) (answers : List Answer) : State :=
  let done := drainMessages s.pendingPublishes answers ({ s with pendingPublishes := [] },[])
  { done.1 with pendingPublishes := done.2++done.1.pendingPublishes }

/-- What a late callback pushes is lost. -/
def callback (s : State) (id : ℕ) (err : Bool) : State :=
  match s.awaiting.find? (fun m => m.id = id) with
  | none => s
  | some m => (published { s with awaiting := s.awaiting.erase m } m err).1

def step (configQos : ℕ) (s : State) : Event → State
  | .publish topic payload qos => publish configQos s topic payload qos
  | .connect answers => drainPendingPublishes { s with connected := true } answers
  | .disconnect => { s with connected := false }
  | .callback id err => callback s id err

def places (s : State) : List ℕ :=
  s.pendingPublishes.map Publish.id++s.awaiting.map Publish.id++s.confirmed++
    s.evictions.map Prod.fst++s.discarded

structure Accounted (s : State) : Prop where
  somewhere : ∀ id < s.nextId, id ∈ places s
  oldest : ∀ e ∈ s.evictions, e.2.length = maxPendingPublishes ∧ ∀ id ∈ e.2, e.1 ≤ id
  spent : ∀ id ∈ s.discarded, s.failures.count id = maxPublishRetries
  bounded : s.pendingPublishes.length ≤ maxPendingPublishes

/-- An error that is reported late is the last one that the message is
allowed. -/
def LastError (s : State) : Event → Prop
  | .callback id err =>
    err = true → ∀ m ∈ s.awaiting, m.id = id → maxPublishRetries ≤ m.retryCount+1
  | _ => True

instance (s : State) : (e : Event) → Decidable (LastError s e)
  | .callback id err =>
    inferInstanceAs (Decidable (err = true → ∀ m ∈ s.awaiting, m.id = id →
      maxPublishRetries ≤ m.retryCount+1))
  | .publish _ _ _ => .isTrue trivial
  | .connect _ => .isTrue trivial
  | .disconnect => .isTrue trivial

def held (s : State) : List Publish := s.pendingPublishes++s.awaiting

/-- No message is in two places, and the retry counts are those of the
errors. -/
structure Inv (s : State) : Prop where
  once : ∀ id, (places s).count id ≤ 1
  fresh : ∀ id, s.nextId ≤ id → (places s).count id = 0 ∧ s.failures.count id = 0
  counted : ∀ m ∈ held s, m.retryCount = s.failures.count m.id
  few : ∀ m ∈ held s, m.retryCount < maxPublishRetries
  inOrder : (s.pendingPublishes.map Publish.id).Pairwise (· < ·)
  oldest : ∀ e ∈ s.evictions, e.2.length = maxPendingPublishes ∧ ∀ id ∈ e.2, e.1 ≤ id
  spent : ∀ id ∈ s.discarded, s.failures.count id = maxPublishRetries
  bounded : s.pendingPublishes.length ≤ maxPendingPublishes

theorem count_places (s : State) (id : ℕ) :
    (places s).count id = (s.pendingPublishes.map Publish.id).count id+
      (s.awaiting.map Publish.id).count id+s.confirmed.count id+
      (s.evictions.map Prod.fst).count id+s.discarded.count id := by
  simp only [places, List.count_append]

theorem ne_of_count {ms : List Publish} {id : ℕ} (h : (ms.map Publish.id).count id = 0)
    {x : Publish} (hx : x ∈ ms) : x.id ≠ id := fun he =>
  List.count_eq_zero.mp h (List.mem_map.mpr ⟨x,hx,he⟩)

theorem Inv.carry {s s' : State} (h : Inv s) (hnext : s'.nextId = s.nextId)
    (hcount : ∀ id, (places s').count id ≤ (places s).count id)
    (hfailures : ∀ id, s.nextId ≤ id → s'.failures.count id = s.failures.count id)
    (hheld : ∀ x ∈ held s', x.retryCount = s'.failures.count x.id ∧
      x.retryCount < maxPublishRetries)
    (hspent : ∀ id ∈ s'.discarded, s'.failures.count id = maxPublishRetries)
    (hpending : (s'.pendingPublishes.map Publish.id).Sublist (s.pendingPublishes.map Publish.id))
    (hevictions : s'.evictions = s.evictions) : Inv s' where
  once := fun id => Nat.le_trans (hcount id) (h.once id)
  fresh := fun id hid => by
    rw [hnext] at hid
    obtain ⟨hplaces,hfail⟩ := h.fresh id hid
    exact ⟨Nat.le_zero.mp (hplaces ▸ hcount id),(hfailures id hid).trans hfail⟩
  counted := fun x hx => (hheld x hx).1
  few := fun x hx => (hheld x hx).2
  inOrder := h.inOrder.sublist hpending
  oldest := fun e he => h.oldest e (hevictions ▸ he)
  spent := hspent
  bounded := by
    have hlen := hpending.length_le
    simp only [List.length_map] at hlen
    exact Nat.le_trans hlen h.bounded

structure Without (s t : State) (m : Publish) : Prop where
  member : m ∈ held s
  subset : ∀ x ∈ held t, x ∈ held s
  order : (t.pendingPublishes.map Publish.id).Sublist (s.pendingPublishes.map Publish.id)
  count : ∀ id, (places s).count id = (places t).count id+(if m.id = id then 1 else 0)
  nextId : t.nextId = s.nextId
  failures : t.failures = s.failures
  discarded : t.discarded = s.discarded
  evictions : t.evictions = s.evictions

section
variable {s t : State} {m : Publish}

theorem Without.apart (hw : Without s t m) (h : Inv s) :
    m.id < s.nextId ∧ (∀ x ∈ held t, x.id ≠ m.id) ∧ ∀ id ∈ s.discarded, id ≠ m.id := by
  have hcount := hw.count m.id
  rw [if_pos rfl] at hcount
  have hold : m.id < s.nextId := by
    by_contra hnew
    have hzero := (h.fresh m.id (Nat.le_of_not_lt hnew)).1
    omega
  have honce := h.once m.id
  have hzero : (places t).count m.id = 0 := by omega
  rw [count_places] at hzero
  have hpending : (t.pendingPublishes.map Publish.id).count m.id = 0 := by omega
  have hawaiting : (t.awaiting.map Publish.id).count m.id = 0 := by omega
  have hdiscarded : t.discarded.count m.id = 0 := by omega
  refine ⟨hold,fun x hx => ?_,fun id hid he => ?_⟩
  · rcases List.mem_append.mp hx with hx | hx
    · exact ne_of_count hpending hx
    · exact ne_of_count hawaiting hx
  · exact List.count_eq_zero.mp hdiscarded (he ▸ hw.discarded ▸ hid)

theorem count_failure {id : ℕ} (hne : id ≠ m.id) :
    (m.id::s.failures).count id = s.failures.count id := by
  simp [Ne.symm hne]

theorem Without.inv (hw : Without s t m) (h : Inv s) {u : State}
    (hpending : u.pendingPublishes = t.pendingPublishes) (hawaiting : u.awaiting = t.awaiting)
    (hnext : u.nextId = t.nextId) (hevictions : u.evictions = t.evictions)
    (hcount : ∀ id, (places u).count id ≤ (places s).count id)
    (hfailures : ∀ id, id ≠ m.id → u.failures.count id = t.failures.count id)
    (hspent : ∀ id ∈ u.discarded,
      id ∈ t.discarded ∨ (id = m.id ∧ u.failures.count id = maxPublishRetries)) : Inv u := by
  obtain ⟨hold,hheld,hdiscarded⟩ := hw.apart h
  rw [hw.failures] at hfailures
  refine h.carry (hnext.trans hw.nextId) hcount (fun id hid => hfailures id (by omega)) ?_ ?_
    (hpending ▸ hw.order) (hevictions.trans hw.evictions)
  · intro x hx
    have hx : x ∈ held t := by rwa [held, hpending, hawaiting] at hx
    rw [hfailures _ (hheld x hx)]
    exact ⟨h.counted x (hw.subset x hx),h.few x (hw.subset x hx)⟩
  · intro id hid
    rcases hspent id hid with hid | ⟨-,hmax⟩
    · rw [hw.discarded] at hid
      rw [hfailures id (hdiscarded id hid)]
      exact h.spent id hid
    · exact hmax

theorem published_inv (hw : Without s t m) (h : Inv s) (err : Bool) :
    Inv (published t m err).1 := by
  have hplaces : ∀ id, (places t).count id ≤ (places s).count id := fun id => by
    have hcount := hw.count id
    omega
  unfold published
  split
  · split
    · exact hw.inv h rfl rfl rfl rfl hplaces (fun id hid => count_failure hid)
        (fun id hid => Or.inl hid)
    · next hmax =>
      refine hw.inv h rfl rfl rfl rfl ?_ (fun id hid => count_failure hid) ?_
      · intro id
        have hcount := hw.count id
        simp only [count_places, List.count_cons, beq_iff_eq] at hcount ⊢
        omega
      · intro id hid
        rcases List.mem_cons.mp hid with rfl | hid
        · -- the errors before this one are the retries of the message
          have hcounted := h.counted m hw.member
          have hfew := h.few m hw.member
          refine Or.inr ⟨rfl,?_⟩
          simp only [hw.failures, List.count_cons_self]
          omega
        · exact Or.inl hid
  · refine hw.inv h rfl rfl rfl rfl ?_ (fun id _ => rfl) (fun id hid => Or.inl hid)
    intro id
    have hcount := hw.count id
    simp only [count_places, List.count_cons, beq_iff_eq] at hcount ⊢
    omega

theorem published_count (hw : Without s t m) (err : Bool) (id : ℕ) :
    (places s).count id = (places (published t m err).1).count id+
      (if (err = true ∧ m.retryCount+1 < maxPublishRetries) ∧ m.id = id then 1 else 0) := by
  rw [hw.count]
  unfold published
  cases err with
  | true =>
    by_cases hmax : m.retryCount+1 < maxPublishRetries
    · simp [hmax, places]
    · simp only [if_true, hmax, and_false, false_and, if_false, count_places,
        List.count_cons, beq_iff_eq]
      omega
  | false =>
    simp only [Bool.false_eq_true, if_false, false_and, count_places, List.count_cons, beq_iff_eq]
    omega

end

/-- A state of the drain, with its own list and the rest of its messages in
the place of the queue. -/
def during (s : State) (ms : List Publish) : State := { s with pendingPublishes := ms }

section
variable {s : State} {failed rest : List Publish} {m : Publish}

theorem without_during : Without (during s (failed++m::rest)) (during s (failed++rest)) m where
  member := by simp [held, during]
  subset := fun x hx => by
    simp only [held, during, List.mem_append, List.mem_cons] at hx ⊢
    tauto
  order := List.Sublist.map _ (List.Sublist.append_left (List.sublist_cons_self _ _) _)
  count := fun id => by
    simp only [count_places, during, List.map_append, List.map_cons, List.count_append,
      List.count_cons, beq_iff_eq]
    omega
  nextId := rfl
  failures := rfl
  discarded := rfl
  evictions := rfl

theorem published_frame (s : State) (m : Publish) (err : Bool) :
    (published s m err).1.nextId = s.nextId ∧
      (published s m err).1.pendingPublishes = s.pendingPublishes := by
  unfold published
  split
  · split
    · exact ⟨rfl,rfl⟩
    · exact ⟨rfl,rfl⟩
  · exact ⟨rfl,rfl⟩

theorem published_during (s : State) (ms : List Publish) (m : Publish) (err : Bool) :
    during (published s m err).1 ms = (published (during s ms) m err).1 := by
  unfold published
  split
  · split
    · rfl
    · rfl
  · rfl

theorem published_retry (hmax : m.retryCount+1 < maxPublishRetries) :
    published s m true =
      ({ s with failures := m.id::s.failures },[{ m with retryCount := m.retryCount+1 }]) := by
  simp [published, hmax]

theorem published_last {err : Bool} (hlast : ¬(err = true ∧ m.retryCount+1 < maxPublishRetries)) :
    (published s m err).2 = [] := by
  unfold published
  split
  · next herr => rw [if_neg (fun hmax => hlast ⟨herr,hmax⟩)]
  · rfl

structure Drained (s s' : State) : Prop where
  inv : Inv s'
  nextId : s'.nextId = s.nextId
  count : ∀ id, (places s').count id = (places s).count id

theorem drained_last (h : Inv (during s (failed++m::rest))) {err : Bool}
    (hlast : ¬(err = true ∧ m.retryCount+1 < maxPublishRetries)) :
    Drained (during s (failed++m::rest))
      (during (published s m err).1 (failed++(published s m err).2++rest)) := by
  rw [published_last hlast, List.append_nil, published_during]
  refine ⟨published_inv without_during h err,(published_frame _ m err).1,fun id => ?_⟩
  have hw : Without (during s (failed++m::rest)) (during s (failed++rest)) m := without_during
  have hcount := published_count hw err id
  rw [if_neg (fun hlost => hlast hlost.1)] at hcount
  exact hcount.symm

theorem drained_retry (h : Inv (during s (failed++m::rest)))
    (hmax : m.retryCount+1 < maxPublishRetries) :
    Drained (during s (failed++m::rest))
      (during (published s m true).1 (failed++(published s m true).2++rest)) := by
  have hw : Without (during s (failed++m::rest)) (during s (failed++rest)) m := without_during
  obtain ⟨hold,hheld,hdiscarded⟩ := hw.apart h
  rw [published_retry hmax]
  have hcount : ∀ id, (places (during { s with failures := m.id::s.failures }
      (failed++[{ m with retryCount := m.retryCount+1 }]++rest))).count id =
      (places (during s (failed++m::rest))).count id := fun id => by
    simp only [count_places, during, List.map_append, List.map_cons, List.map_nil,
      List.count_append, List.count_cons, List.count_nil, beq_iff_eq]
    omega
  refine ⟨?_,rfl,hcount⟩
  refine h.carry rfl (fun id => Nat.le_of_eq (hcount id)) ?_ ?_ ?_ ?_ rfl
  · intro id hid
    exact count_failure (s := s) (by omega)
  · intro x hx
    have hx : x = { m with retryCount := m.retryCount+1 } ∨ x ∈ held (during s (failed++rest)) := by
      simp only [held, during, List.mem_append, List.mem_singleton] at hx ⊢
      tauto
    rcases hx with rfl | hx
    · have hcounted := h.counted m hw.member
      refine ⟨?_,hmax⟩
      show m.retryCount+1 = (m.id::s.failures).count m.id
      rw [List.count_cons_self]
      exact congrArg (·+1) hcounted
    · have hfail := count_failure (s := s) (hheld x hx)
      exact ⟨(h.counted x (hw.subset x hx)).trans hfail.symm,h.few x (hw.subset x hx)⟩
  · intro id hid
    have hfail := count_failure (s := s) (hdiscarded id hid)
    exact hfail.trans (h.spent id hid)
  · simp [during]

theorem drained_later (h : Inv (during s (failed++m::rest))) :
    Drained (during s (failed++m::rest))
      (during { s with awaiting := m::s.awaiting } (failed++[]++rest)) := by
  rw [List.append_nil]
  have hcount : ∀ id, (places (during { s with awaiting := m::s.awaiting }
      (failed++rest))).count id = (places (during s (failed++m::rest))).count id := fun id => by
    simp only [count_places, during, List.map_append, List.map_cons, List.count_append,
      List.count_cons, beq_iff_eq]
    omega
  refine ⟨?_,rfl,hcount⟩
  refine h.carry rfl (fun id => Nat.le_of_eq (hcount id)) (fun _ _ => rfl) ?_ h.spent
    without_during.order rfl
  intro x hx
  have hx : x ∈ held (during s (failed++m::rest)) := by
    simp only [held, during, List.mem_append, List.mem_cons] at hx ⊢
    tauto
  exact ⟨h.counted x hx,h.few x hx⟩

theorem drained_attempt (h : Inv (during s (failed++m::rest))) (a : Answer) :
    Drained (during s (failed++m::rest))
      (during (attempt s m a).1 (failed++(attempt s m a).2++rest)) := by
  cases a with
  | offline =>
    have hlist : failed++[m]++rest = failed++m::rest := by simp
    simp only [attempt, hlist]
    exact ⟨h,rfl,fun _ => rfl⟩
  | confirmed => exact drained_last h (by simp)
  | failed =>
    by_cases hmax : m.retryCount+1 < maxPublishRetries
    · exact drained_retry h hmax
    · exact drained_last h (fun hlast => hmax hlast.2)
  | later => exact drained_later h

theorem attempt_pending (s : State) (m : Publish) (a : Answer) :
    (attempt s m a).1.pendingPublishes = s.pendingPublishes := by
  cases a with
  | offline => rfl
  | confirmed => rfl
  | failed => exact (published_frame s m true).2
  | later => rfl

theorem drained_messages (ms : List Publish) (answers : List Answer)
    (done : State × List Publish) (hnone : done.1.pendingPublishes = [])
    (h : Inv (during done.1 (done.2++ms))) :
    Drained (during done.1 (done.2++ms))
      (during (drainMessages ms answers done).1 (drainMessages ms answers done).2) ∧
      (drainMessages ms answers done).1.pendingPublishes = [] := by
  induction ms generalizing answers done with
  | nil =>
    rw [List.append_nil] at h ⊢
    exact ⟨⟨h,rfl,fun _ => rfl⟩,hnone⟩
  | cons m rest ih =>
    have hone := drained_attempt h (answers.headD .later)
    obtain ⟨hrest,hempty⟩ := ih answers.tail
      ((attempt done.1 m (answers.headD .later)).1,
        done.2++(attempt done.1 m (answers.headD .later)).2)
      ((attempt_pending _ _ _).trans hnone) hone.inv
    exact ⟨⟨hrest.inv,hrest.nextId.trans hone.nextId,
      fun id => (hrest.count id).trans (hone.count id)⟩,hempty⟩

theorem drained (answers : List Answer) (h : Inv s) :
    Drained s (drainPendingPublishes s answers) := by
  obtain ⟨hall,hempty⟩ := drained_messages s.pendingPublishes answers
    ({ s with pendingPublishes := [] },[]) rfl h
  unfold drainPendingPublishes
  simp only [hempty, List.append_nil]
  exact hall

theorem find_awaiting {id : ℕ} (hm : s.awaiting.find? (fun m => m.id = id) = some m) :
    m ∈ s.awaiting ∧ m.id = id :=
  ⟨List.mem_of_find?_eq_some hm,by simpa using List.find?_some hm⟩

theorem without_awaiting (hm : m ∈ s.awaiting) :
    Without s { s with awaiting := s.awaiting.erase m } m where
  member := List.mem_append_right _ hm
  subset := fun x hx => by
    rcases List.mem_append.mp hx with hx | hx
    · exact List.mem_append_left _ hx
    · exact List.mem_append_right _ (List.mem_of_mem_erase hx)
  order := List.Sublist.refl _
  count := fun id => by
    have hperm := ((List.perm_cons_erase hm).map Publish.id).count_eq id
    simp only [List.map_cons, List.count_cons, beq_iff_eq] at hperm
    simp only [count_places]
    omega
  nextId := rfl
  failures := rfl
  discarded := rfl
  evictions := rfl

theorem inv_callback (h : Inv s) (id : ℕ) (err : Bool) : Inv (callback s id err) := by
  unfold callback
  cases hm : s.awaiting.find? (fun m => m.id = id) with
  | none => exact h
  | some m => exact published_inv (without_awaiting (find_awaiting hm).1) h err

def Somewhere (s : State) : Prop := ∀ id < s.nextId, 0 < (places s).count id

theorem somewhere_callback (h : Inv s) (hs : Somewhere s) (id : ℕ) (err : Bool) :
    Somewhere (callback s id err) ↔ LastError s (.callback id err) := by
  unfold callback LastError
  cases hm : s.awaiting.find? (fun m => m.id = id) with
  | none =>
    refine iff_of_true hs (fun _ m hmem hid => ?_)
    exact absurd hid (by simpa using List.find?_eq_none.mp hm m hmem)
  | some m =>
    obtain ⟨hmem,rfl⟩ := find_awaiting hm
    have hw := without_awaiting hmem
    have hcount := published_count hw err
    obtain ⟨hold,hheld,-⟩ := hw.apart h
    have hsame : ∀ x ∈ s.awaiting, x.id = m.id → x.retryCount = m.retryCount := by
      intro x hx hid
      rw [h.counted x (List.mem_append_right _ hx), h.counted m (List.mem_append_right _ hmem), hid]
    have hnext := (published_frame { s with awaiting := s.awaiting.erase m } m err).1
    constructor
    · intro hsome herr x hx hid
      rw [hsame x hx hid]
      by_contra hmax
      have hlost := hcount m.id
      rw [if_pos ⟨⟨herr,by omega⟩,rfl⟩] at hlost
      have honce := h.once m.id
      have hpos := hsome m.id (by rw [hnext]; exact hold)
      simp only at hpos
      omega
    · intro hlast x hx
      rw [hnext] at hx
      have hpos := hs x hx
      have hkept := hcount x
      rw [if_neg (fun hlost => by
        have hmax := hlast hlost.1.1 m hmem rfl
        have hmore := hlost.1.2
        omega)] at hkept
      simp only
      omega

theorem inv_shiftFull (h : Inv s) : Inv (shiftFull s) ∧
    (shiftFull s).pendingPublishes.length < maxPendingPublishes ∧
    (shiftFull s).nextId = s.nextId ∧
    ∀ id, (places (shiftFull s)).count id = (places s).count id := by
  unfold shiftFull
  split
  · next hfull =>
    cases hq : s.pendingPublishes with
    | nil =>
      rw [hq] at hfull
      exact absurd hfull (by decide)
    | cons m rest =>
      have hcount : ∀ id, (places { s with
          pendingPublishes := rest
          evictions := (m.id,(m::rest).map Publish.id)::s.evictions }).count id =
          (places s).count id := fun id => by
        simp only [count_places, hq, List.map_cons, List.count_cons, beq_iff_eq]
        omega
      have hbounded := h.bounded
      have horder := h.inOrder
      simp only [hq, List.length_cons, List.map_cons, List.pairwise_cons] at hfull hbounded horder
      have hheld : ∀ x ∈ rest++s.awaiting, x ∈ held s := by
        intro x hx
        rw [held, hq]
        exact List.mem_cons_of_mem _ hx
      refine ⟨⟨fun id => ?_,fun id hid => ?_,fun x hx => h.counted x (hheld x hx),
        fun x hx => h.few x (hheld x hx),horder.2,fun e he => ?_,h.spent,?_⟩,?_,rfl,hcount⟩
      · rw [hcount]
        exact h.once id
      · rw [hcount]
        exact h.fresh id hid
      · rcases List.mem_cons.mp he with rfl | he
        · refine ⟨by simp only [List.length_map, List.length_cons]; omega,fun id hid => ?_⟩
          rcases List.mem_cons.mp hid with rfl | hid
          · exact Nat.le_refl _
          · exact Nat.le_of_lt (horder.1 id hid)
        · exact h.oldest e he
      · simp only
        omega
      · simp only
        omega
  · next hroom => exact ⟨h,Nat.lt_of_not_le hroom,rfl,fun _ => rfl⟩

theorem Inv.id_lt (h : Inv s) {x : Publish} (hx : x ∈ s.pendingPublishes) : x.id < s.nextId := by
  by_contra hnew
  have hzero := (h.fresh x.id (Nat.le_of_not_lt hnew)).1
  rw [count_places] at hzero
  exact ne_of_count (by omega) hx rfl

theorem count_publish (t : State) (m : Publish) (id : ℕ) :
    (places { t with pendingPublishes := t.pendingPublishes++[m], nextId := t.nextId+1 }).count id =
      (places t).count id+(if m.id = id then 1 else 0) := by
  simp only [count_places, List.map_append, List.map_cons, List.map_nil, List.count_append,
    List.count_cons, List.count_nil, beq_iff_eq]
  omega

theorem inv_enqueue (h : Inv s) (hroom : s.pendingPublishes.length < maxPendingPublishes)
    (topic payload : String) (qos : ℕ) :
    Inv { s with
      pendingPublishes := s.pendingPublishes++[⟨s.nextId,topic,payload,qos,0⟩]
      nextId := s.nextId+1 } where
  once := fun id => by
    have honce := h.once id
    rw [count_publish]
    split
    · next hid =>
      obtain rfl : s.nextId = id := hid
      have hzero := (h.fresh s.nextId (Nat.le_refl _)).1
      omega
    · omega
  fresh := fun id (hid : s.nextId+1 ≤ id) => by
    have hzero := h.fresh id (by omega)
    rw [count_publish, if_neg (by simp only; omega)]
    exact hzero
  counted := fun x hx => by
    simp only [held, List.mem_append, List.mem_singleton] at hx
    rcases hx with (hx | rfl) | hx
    · exact h.counted x (List.mem_append_left _ hx)
    · exact (h.fresh s.nextId (Nat.le_refl _)).2.symm
    · exact h.counted x (List.mem_append_right _ hx)
  few := fun x hx => by
    simp only [held, List.mem_append, List.mem_singleton] at hx
    rcases hx with (hx | rfl) | hx
    · exact h.few x (List.mem_append_left _ hx)
    · show 0 < maxPublishRetries
      decide
    · exact h.few x (List.mem_append_right _ hx)
  inOrder := by
    rw [List.map_append, List.pairwise_append]
    refine ⟨h.inOrder,List.pairwise_singleton _ _,fun a ha b hb => ?_⟩
    obtain ⟨x,hx,rfl⟩ := List.mem_map.mp ha
    obtain rfl : b = s.nextId := by simpa using hb
    exact h.id_lt hx
  oldest := h.oldest
  spent := h.spent
  bounded := by
    simp only [List.length_append, List.length_singleton]
    omega

theorem publish_keeps (configQos : ℕ) (topic payload : String) (qos : Option ℕ) (h : Inv s) :
    Inv (publish configQos s topic payload qos) ∧
      (Somewhere s → Somewhere (publish configQos s topic payload qos)) := by
  unfold publish
  split
  · exact ⟨h,id⟩
  · obtain ⟨hinv,hroom,hnext,hcount⟩ := inv_shiftFull h
    refine ⟨inv_enqueue hinv hroom _ _ _,fun hs id (hid : id < (shiftFull s).nextId+1) => ?_⟩
    rw [count_publish, hcount]
    split
    · omega
    · next hne =>
      have hne : (shiftFull s).nextId ≠ id := hne
      exact hs id (by omega)

variable {configQos : ℕ}

theorem inv_step (e : Event) (h : Inv s) : Inv (step configQos s e) := by
  cases e with
  | publish topic payload qos => exact (publish_keeps configQos topic payload qos h).1
  | connect answers =>
    have hconnected : Inv { s with connected := true } := { h with }
    exact (drained answers hconnected).inv
  | disconnect => exact { h with }
  | callback id err => exact inv_callback h id err

theorem somewhere_step (e : Event) (h : Inv s) (hs : Somewhere s) :
    Somewhere (step configQos s e) ↔ LastError s e := by
  cases e with
  | publish topic payload qos =>
    exact iff_of_true ((publish_keeps configQos topic payload qos h).2 hs) trivial
  | connect answers =>
    refine iff_of_true (fun id hid => ?_) trivial
    have hconnected : Inv { s with connected := true } := { h with }
    have hd := drained answers hconnected
    have hid : id < s.nextId := hd.nextId ▸ hid
    exact (hd.count id).symm ▸ hs id hid
  | disconnect => exact iff_of_true hs trivial
  | callback id err => exact somewhere_callback h hs id err

theorem inv_started : Inv started where
  once := fun id => by simp [places, started]
  fresh := fun id _ => by simp [places, started]
  counted := fun x hx => absurd hx List.not_mem_nil
  few := fun x hx => absurd hx List.not_mem_nil
  inOrder := List.Pairwise.nil
  oldest := fun e he => absurd he List.not_mem_nil
  spent := fun id hid => absurd hid List.not_mem_nil
  bounded := Nat.zero_le _

theorem accounted_iff_somewhere (h : Inv s) : Accounted s ↔ Somewhere s := by
  constructor
  · exact fun ha id hid => List.count_pos_iff.mpr (ha.somewhere id hid)
  · exact fun hs => ⟨fun id hid => List.count_pos_iff.mp (hs id hid),h.oldest,h.spent,h.bounded⟩

end

theorem accounted_iff (configQos : ℕ) (es : List Event) :
    (∀ pre, pre <+: es → Accounted (run (step configQos) pre started)) ↔
      Meets (step configQos) LastError es started := by
  have hrun : ∀ pre, Inv (run (step configQos) pre started) := fun pre =>
    run_invariant (fun _ e _ hi => inv_step e hi) pre started (meets_any _ _ _) inv_started
  rw [← always_iff_meets (fun _ e hi => inv_step e hi) (fun _ e hi hs => somewhere_step e hi hs)
    es started inv_started (fun id hid => absurd hid (Nat.not_lt_zero id))]
  exact forall₂_congr (fun pre _ => accounted_iff_somewhere (hrun pre))

def lateFailure : List Event :=
  [.publish "alerts" "high" none,.connect [],.callback 0 true]

theorem late_failure_lost :
    (run (step 1) lateFailure started).failures = [0] ∧
      ¬Accounted (run (step 1) lateFailure started) := by
  refine ⟨by decide,fun h => ?_⟩
  have hsomewhere := h.somewhere 0 (by decide)
  revert hsomewhere
  decide

end Iotistica.OfflinePublishes
