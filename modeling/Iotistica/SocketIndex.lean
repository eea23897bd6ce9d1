import Iotistica.SocketServer

/-!
# The index of the socket server

Every collection of the server is a function of the active clients and their
topics. Each handler changes one client in all of them: it becomes pending,
takes a set of topics, or leaves.
-/

set_option autoImplicit false

namespace Iotistica.SocketIndex
open Iotistica.JsonText Iotistica.JsonDoubles Iotistica.SocketServer

variable {V σ : Type*}

theorem ne_and_of_notMem {x socket : σ} {xs : List σ} (h : socket ∉ xs) :
    x ∈ xs ↔ x ≠ socket ∧ x ∈ xs := by
  constructor
  · intro hx
    refine ⟨?_,hx⟩
    rintro rfl
    exact h hx
  · exact And.right

variable [DecidableEq σ]

/-- The collections agree with the active clients; a socket is active or
pending exactly from its acceptance to its destruction. -/
structure Index (s : Server σ) : Prop where
  topics : ∀ t x, x ∈ s.topicToSockets.members t ↔ x ∈ s.subscriptions.keys ∧ t ∈ topicsOf s x
  wildcard : ∀ x, x ∈ s.wildcardSockets.keys ↔ x ∈ s.subscriptions.keys ∧ topicsOf s x = []
  slow : ∀ x ∈ s.slowClients.keys, x ∈ s.subscriptions.keys
  pending : ∀ x ∈ s.pendingSubscriptions.keys, x ∉ s.subscriptions.keys
  live : ∀ x, x ∈ s.subscriptions.keys ∨ x ∈ s.pendingSubscriptions.keys →
    x ∈ s.connections.keys ∧ x ∉ s.destroyed
  served : ∀ x ∈ s.connections.keys, x ∉ s.destroyed →
    x ∈ s.subscriptions.keys ∨ x ∈ s.pendingSubscriptions.keys
  capacity : s.subscriptions.size+s.pendingSubscriptions.size ≤ maxClients
  stopped : s.started = false → s.subscriptions.keys = [] ∧ s.pendingSubscriptions.keys = []

theorem new_index : Index (Server.new : Server σ) where
  topics := fun t x => by simp [Server.new]
  wildcard := fun x => by simp [Server.new]
  slow := fun x hx => by simp [Server.new] at hx
  pending := fun x hx => by simp [Server.new] at hx
  live := fun x hx => by simp [Server.new] at hx
  served := fun x hx => by simp [Server.new] at hx
  capacity := by simp [Server.new]
  stopped := fun _ => ⟨rfl,rfl⟩

structure Alike (s s' : Server σ) : Prop where
  subscriptions : s'.subscriptions = s.subscriptions
  pendingSubscriptions : s'.pendingSubscriptions = s.pendingSubscriptions
  topicToSockets : s'.topicToSockets = s.topicToSockets
  wildcardSockets : s'.wildcardSockets = s.wildcardSockets
  destroyed : s'.destroyed = s.destroyed
  started : s'.started = s.started
  connections : ∀ x, x ∈ s'.connections.keys ↔ x ∈ s.connections.keys
  topicsOf : ∀ x, topicsOf s' x = topicsOf s x

theorem alike_refl (s : Server σ) : Alike s s :=
  ⟨rfl,rfl,rfl,rfl,rfl,rfl,fun _ => Iff.rfl,fun _ => rfl⟩

theorem index_alike {s s' : Server σ} (h : Index s) (ha : Alike s s')
    (hslow : ∀ x ∈ s'.slowClients.keys, x ∈ s.subscriptions.keys) : Index s' where
  topics := fun t x => by
    rw [ha.topicToSockets, ha.subscriptions, ha.topicsOf]
    exact h.topics t x
  wildcard := fun x => by
    rw [ha.wildcardSockets, ha.subscriptions, ha.topicsOf]
    exact h.wildcard x
  slow := by
    rw [ha.subscriptions]
    exact hslow
  pending := by
    rw [ha.pendingSubscriptions, ha.subscriptions]
    exact h.pending
  live := fun x hx => by
    rw [ha.subscriptions, ha.pendingSubscriptions] at hx
    rw [ha.connections, ha.destroyed]
    exact h.live x hx
  served := fun x hx hd => by
    rw [ha.connections] at hx
    rw [ha.destroyed] at hd
    rw [ha.subscriptions, ha.pendingSubscriptions]
    exact h.served x hx hd
  capacity := by
    rw [ha.subscriptions, ha.pendingSubscriptions]
    exact h.capacity
  stopped := by
    rw [ha.started, ha.subscriptions, ha.pendingSubscriptions]
    exact h.stopped

theorem mem_keys_of_get? {β : Type*} {m : OrderedMap σ β} {x : σ} {b : β}
    (h : m.get? x = some b) : x ∈ m.keys :=
  List.mem_map_of_mem ((OrderedMap.get?_eq_some_iff m x b).mp h)

theorem alike_connection {s : Server σ} {socket : σ} {c c' : Connection}
    (hc : s.connections.get? socket = some c)
    (htopics : c'.subscription.topics = c.subscription.topics) :
    Alike s { s with connections := s.connections.set socket c' } := by
  refine ⟨rfl,rfl,rfl,rfl,rfl,rfl,fun x => ?_,fun x => ?_⟩
  · rw [OrderedMap.mem_set]
    refine or_iff_right_of_imp ?_
    rintro rfl
    exact mem_keys_of_get? hc
  · unfold SocketServer.topicsOf
    simp only [OrderedMap.get?_set]
    by_cases hx : x = socket
    · subst hx
      rw [if_pos rfl, hc]
      simp only [htopics]
    · rw [if_neg hx]

theorem setBuffer_alike (socket : σ) (buffer : List Char) (s : Server σ) :
    Alike s (setBuffer socket buffer s) := by
  unfold setBuffer
  split
  · exact alike_refl s
  · rename_i c hc
    exact alike_connection hc rfl

theorem clearTimer_alike (socket : σ) (s : Server σ) : Alike s (clearTimer socket s) := by
  unfold clearTimer
  split
  · exact alike_refl s
  · rename_i c hc
    exact alike_connection hc rfl

theorem setLastSentAt_alike (socket : σ) (t : ℤ) (s : Server σ) :
    Alike s (setLastSentAt socket t s) := by
  unfold setLastSentAt
  split
  · exact alike_refl s
  · rename_i c hc
    exact alike_connection hc rfl

theorem setBuffer_slowClients (socket : σ) (buffer : List Char) (s : Server σ) :
    (setBuffer socket buffer s).slowClients = s.slowClients := by
  unfold setBuffer
  split <;> rfl

theorem clearTimer_slowClients (socket : σ) (s : Server σ) :
    (clearTimer socket s).slowClients = s.slowClients := by
  unfold clearTimer
  split <;> rfl

theorem setLastSentAt_slowClients (socket : σ) (t : ℤ) (s : Server σ) :
    (setLastSentAt socket t s).slowClients = s.slowClients := by
  unfold setLastSentAt
  split <;> rfl

theorem setLastSentAt_other {socket x : σ} (t : ℤ) (s : Server σ) (hx : x ≠ socket) :
    (setLastSentAt socket t s).connections.get? x = s.connections.get? x := by
  unfold setLastSentAt
  split
  · rfl
  · exact (OrderedMap.get?_set _ _ _ _).trans (if_neg hx)

structure Removed (socket : σ) (s s' : Server σ) : Prop where
  connections : s'.connections = s.connections
  started : s'.started = s.started
  subscriptions : ∀ x, x ∈ s'.subscriptions.keys ↔ x ≠ socket ∧ x ∈ s.subscriptions.keys
  pending : ∀ x, x ∈ s'.pendingSubscriptions.keys ↔ x ≠ socket ∧ x ∈ s.pendingSubscriptions.keys
  topics : ∀ t x, x ∈ s'.topicToSockets.members t ↔ x ≠ socket ∧ x ∈ s.topicToSockets.members t
  wildcard : ∀ x, x ∈ s'.wildcardSockets.keys ↔ x ≠ socket ∧ x ∈ s.wildcardSockets.keys
  slow : ∀ x, s'.slowClients.get? x = if x = socket then none else s.slowClients.get? x
  destroyed : ∀ x, x ∈ s'.destroyed ↔ x ∈ s.destroyed ∨ (x = socket ∧
    (socket ∈ s.subscriptions.keys ∨ socket ∈ s.pendingSubscriptions.keys))
  size : s'.subscriptions.size+s'.pendingSubscriptions.size ≤
    s.subscriptions.size+s.pendingSubscriptions.size

theorem removed_index {socket : σ} {s s' : Server σ} (h : Index s) (hr : Removed socket s s') :
    Index s' := by
  have htopics : ∀ x, topicsOf s' x = topicsOf s x := by
    intro x
    unfold topicsOf
    rw [hr.connections]
  refine ⟨fun t x => ?_,fun x => ?_,fun x hx => ?_,fun x hx => ?_,fun x hx => ?_,
    fun x hx hd => ?_,hr.size.trans h.capacity,fun hstopped => ?_⟩
  · rw [hr.topics, hr.subscriptions, htopics, h.topics, and_assoc]
  · rw [hr.wildcard, hr.subscriptions, htopics, h.wildcard, and_assoc]
  · obtain ⟨e,he,rfl⟩ := List.mem_map.mp hx
    have hget := hr.slow e.1
    rw [OrderedMap.get?_of_mem he] at hget
    split at hget
    · cases hget
    · rename_i hne
      exact (hr.subscriptions _).mpr ⟨hne,h.slow _ (mem_keys_of_get? hget.symm)⟩
  · rw [hr.pending] at hx
    rw [hr.subscriptions]
    exact fun hactive => h.pending x hx.2 hactive.2
  · rw [hr.subscriptions, hr.pending, ← and_or_left] at hx
    rw [hr.connections, hr.destroyed]
    obtain ⟨hconnected,hlive⟩ := h.live x hx.2
    exact ⟨hconnected,fun hd => hd.elim hlive (fun he => hx.1 he.1)⟩
  · rw [hr.connections] at hx
    rw [hr.destroyed, not_or] at hd
    have hold := h.served x hx hd.1
    have hne : x ≠ socket := by
      rintro rfl
      exact hd.2 ⟨rfl,hold⟩
    rw [hr.subscriptions, hr.pending, ← and_or_left]
    exact ⟨hne,hold⟩
  · rw [hr.started] at hstopped
    obtain ⟨hs,hp⟩ := h.stopped hstopped
    refine ⟨List.eq_nil_iff_forall_not_mem.mpr fun x hx => ?_,
      List.eq_nil_iff_forall_not_mem.mpr fun x hx => ?_⟩
    · rw [hr.subscriptions, hs] at hx
      cases hx.2
    · rw [hr.pending, hp] at hx
      cases hx.2

theorem removeClient_removed {s : Server σ} (h : Index s) (socket : σ) :
    Removed socket s (removeClient socket s) := by
  have hslow : ∀ x, (s.slowClients.delete socket).get? x =
      if x = socket then none else s.slowClients.get? x := OrderedMap.get?_delete _ _
  have hother : ∀ {p : Prop} (x : σ), p →
      (x ∈ socket::s.destroyed ↔ x ∈ s.destroyed ∨ (x = socket ∧ p)) := by
    intro p x hp
    rw [List.mem_cons, and_iff_left hp, or_comm]
  unfold removeClient
  simp only [OrderedMap.has_iff]
  split
  · rename_i hpending
    have hinactive := h.pending socket hpending
    have hindex : ∀ t, socket ∉ s.topicToSockets.members t :=
      fun t hm => hinactive ((h.topics t socket).mp hm).1
    have hwildcard : socket ∉ s.wildcardSockets.keys :=
      fun hm => hinactive ((h.wildcard socket).mp hm).1
    exact ⟨rfl,rfl,fun _ => ne_and_of_notMem hinactive,fun x => OrderedMap.mem_delete _ _ x,
      fun t _ => ne_and_of_notMem (hindex t),fun _ => ne_and_of_notMem hwildcard,hslow,
      fun x => hother x (Or.inr hpending),
      Nat.add_le_add_left (OrderedMap.size_delete_le _ _) _⟩
  · rename_i hnot
    split
    · rename_i hactive
      refine ⟨rfl,rfl,fun x => OrderedMap.mem_delete _ _ x,fun _ => ne_and_of_notMem hnot,
        fun t x => ?_,fun x => ?_,hslow,fun x => hother x (Or.inl hactive),
        Nat.add_le_add_right (OrderedMap.size_delete_le _ _) _⟩
      · dsimp only
        split
        · rename_i hempty
          have hout : socket ∉ s.topicToSockets.members t := by
            rw [h.topics, List.isEmpty_iff.mp hempty]
            exact fun hm => absurd hm.2 List.not_mem_nil
          exact ne_and_of_notMem hout
        · rw [SetIndex.members_dropAll, and_comm]
          refine and_congr_left fun hm => not_congr ?_
          refine ⟨And.right,?_⟩
          rintro rfl
          exact ⟨((h.topics t x).mp hm).2,rfl⟩
      · dsimp only
        split
        · exact OrderedMap.mem_delete _ _ x
        · rename_i hnamed
          refine ne_and_of_notMem ?_
          rw [h.wildcard]
          exact fun hm => hnamed (List.isEmpty_iff.mpr hm.2)
    · rename_i hinactive
      have hindex : ∀ t, socket ∉ s.topicToSockets.members t :=
        fun t hm => hinactive ((h.topics t socket).mp hm).1
      have hwildcard : socket ∉ s.wildcardSockets.keys :=
        fun hm => hinactive ((h.wildcard socket).mp hm).1
      refine ⟨rfl,rfl,fun _ => ne_and_of_notMem hinactive,fun _ => ne_and_of_notMem hnot,
        fun t _ => ne_and_of_notMem (hindex t),fun _ => ne_and_of_notMem hwildcard,hslow,
        fun x => ?_,le_rfl⟩
      simp [hinactive, hnot]

theorem removeClient_index {s : Server σ} (h : Index s) (socket : σ) :
    Index (removeClient socket s) := removed_index h (removeClient_removed h socket)

theorem removeClient_destroyed (socket : σ) (s : Server σ) :
    removeClient socket { s with destroyed := socket::s.destroyed } =
      { removeClient socket s with destroyed := socket::(removeClient socket s).destroyed } := by
  unfold removeClient
  simp only
  split
  · rfl
  · split
    · rfl
    · rfl

theorem destroy_index {s : Server σ} (h : Index s) {socket : σ}
    (hactive : socket ∉ s.subscriptions.keys) (hpending : socket ∉ s.pendingSubscriptions.keys) :
    Index { s with destroyed := socket::s.destroyed } where
  topics := h.topics
  wildcard := h.wildcard
  slow := h.slow
  pending := h.pending
  live := fun x hx => by
    obtain ⟨hconnected,hd⟩ := h.live x hx
    refine ⟨hconnected,fun hmem => ?_⟩
    rcases List.mem_cons.mp hmem with rfl | hmem
    · exact hx.elim hactive hpending
    · exact hd hmem
  served := fun x hx hd => h.served x hx (fun hmem => hd (List.mem_cons_of_mem _ hmem))
  capacity := h.capacity
  stopped := h.stopped

theorem connection_index {s : Server σ} (h : Index s) {socket : σ} (hstarted : s.started = true)
    (hnew : socket ∉ s.connections.keys) (hlive : socket ∉ s.destroyed) :
    Index (handleClientConnection socket s) := by
  have hinactive : socket ∉ s.subscriptions.keys := fun hx => hnew (h.live socket (Or.inl hx)).1
  unfold handleClientConnection
  split
  · exact destroy_index h hinactive (fun hx => hnew (h.live socket (Or.inr hx)).1)
  · rename_i hroom
    have htopics : ∀ x ∈ s.subscriptions.keys, topicsOf (handleClientConnection socket s) x =
        topicsOf s x := by
      intro x hx
      have hne : x ≠ socket := by
        rintro rfl
        exact hinactive hx
      unfold handleClientConnection topicsOf
      rw [if_neg hroom]
      simp only [OrderedMap.get?_set, if_neg hne]
    rw [handleClientConnection, if_neg hroom] at htopics
    refine ⟨fun t x => ?_,fun x => ?_,h.slow,fun x hx => ?_,fun x hx => ?_,fun x hx hd => ?_,?_,
      fun hstopped => ?_⟩
    · rw [h.topics]
      exact and_congr_right fun hx => by rw [htopics x hx]
    · rw [h.wildcard]
      exact and_congr_right fun hx => by rw [htopics x hx]
    · rw [OrderedMap.mem_add] at hx
      rcases hx with rfl | hx
      · exact hinactive
      · exact h.pending x hx
    · rw [OrderedMap.mem_add] at hx
      rw [OrderedMap.mem_set]
      have hcases : x = socket ∨ x ∈ s.subscriptions.keys ∨ x ∈ s.pendingSubscriptions.keys := by
        tauto
      rcases hcases with rfl | hold
      · exact ⟨Or.inl rfl,hlive⟩
      · exact ⟨Or.inr (h.live x hold).1,(h.live x hold).2⟩
    · rw [OrderedMap.mem_set] at hx
      rw [OrderedMap.mem_add]
      rcases hx with rfl | hx
      · exact Or.inr (Or.inl rfl)
      · exact (h.served x hx hd).imp id Or.inr
    · have hsize : (s.pendingSubscriptions.add socket).size ≤ s.pendingSubscriptions.size+1 := by
        rw [OrderedMap.add, OrderedMap.size_set]
        split <;> omega
      change s.subscriptions.size+(s.pendingSubscriptions.add socket).size ≤ maxClients
      omega
    · rw [hstarted] at hstopped
      cases hstopped

omit [DecidableEq σ] in
theorem mem_names (topics : List String) (set : OrderedMap String Unit) (t : String) :
    t ∈ (topics.foldl (fun set t => set.add t) set).keys ↔ t ∈ set.keys ∨ t ∈ topics := by
  induction topics generalizing set with
  | nil => simp
  | cons a topics ih =>
    rw [List.foldl_cons, ih, OrderedMap.mem_add, List.mem_cons]
    tauto

structure Subscribed (socket : σ) (topics : List String) (s s' : Server σ) : Prop where
  own : ∀ t, t ∈ topicsOf s' socket ↔ t ∈ topics
  others : ∀ x, x ≠ socket → topicsOf s' x = topicsOf s x
  subscriptions : ∀ x, x ∈ s'.subscriptions.keys ↔ x = socket ∨ x ∈ s.subscriptions.keys
  pending : ∀ x, x ∈ s'.pendingSubscriptions.keys ↔ x ≠ socket ∧ x ∈ s.pendingSubscriptions.keys
  index : ∀ t x, x ∈ s'.topicToSockets.members t ↔
    (x ≠ socket ∧ x ∈ s.topicToSockets.members t) ∨ (t ∈ topics ∧ x = socket)
  wildcard : ∀ x, x ∈ s'.wildcardSockets.keys ↔
    (x ≠ socket ∧ x ∈ s.wildcardSockets.keys) ∨ (topics = [] ∧ x = socket)
  connections : ∀ x, x ∈ s'.connections.keys ↔ x ∈ s.connections.keys
  slowClients : s'.slowClients = s.slowClients
  destroyed : s'.destroyed = s.destroyed
  started : s'.started = s.started
  size : s'.subscriptions.size+s'.pendingSubscriptions.size ≤
    s.subscriptions.size+s.pendingSubscriptions.size

theorem subscribed_index {socket : σ} {topics : List String} {s s' : Server σ} (h : Index s)
    (hlive : socket ∈ s.subscriptions.keys ∨ socket ∈ s.pendingSubscriptions.keys)
    (hs : Subscribed socket topics s s') : Index s' := by
  have hown : topicsOf s' socket = [] ↔ topics = [] := by
    rw [List.eq_nil_iff_forall_not_mem, List.eq_nil_iff_forall_not_mem]
    exact forall_congr' fun t => not_congr (hs.own t)
  refine ⟨fun t x => ?_,fun x => ?_,fun x hx => ?_,fun x hx => ?_,fun x hx => ?_,fun x hx hd => ?_,
    hs.size.trans h.capacity,fun hstopped => ?_⟩
  · rw [hs.index, hs.subscriptions, h.topics]
    by_cases hx : x = socket
    · subst hx
      simp [hs.own]
    · simp [hx, hs.others x hx]
  · rw [hs.wildcard, hs.subscriptions, h.wildcard]
    by_cases hx : x = socket
    · subst hx
      simp [hown]
    · simp [hx, hs.others x hx]
  · rw [hs.slowClients] at hx
    exact (hs.subscriptions x).mpr (Or.inr (h.slow x hx))
  · rw [hs.pending] at hx
    rw [hs.subscriptions]
    exact fun hactive => hactive.elim hx.1 (h.pending x hx.2)
  · rw [hs.subscriptions, hs.pending] at hx
    rw [hs.connections, hs.destroyed]
    rcases hx with (rfl | hx) | hx
    · exact h.live x hlive
    · exact h.live x (Or.inl hx)
    · exact h.live x (Or.inr hx.2)
  · rw [hs.connections] at hx
    rw [hs.destroyed] at hd
    rw [hs.subscriptions, hs.pending]
    by_cases hne : x = socket
    · exact Or.inl (Or.inl hne)
    · exact (h.served x hx hd).imp Or.inr (fun hp => ⟨hne,hp⟩)
  · rw [hs.started] at hstopped
    obtain ⟨hactive,hpending⟩ := h.stopped hstopped
    rw [hactive, hpending] at hlive
    exact absurd hlive (by simp)

section
variable (socket : σ) (c : Connection) (topics : List String) (rules : ClientRoutingRules)
  (s : Server σ)

theorem subscribe_connections : (subscribe socket c topics rules s).connections =
    s.connections.set socket ⟨⟨topics.foldl (fun set t => set.add t) OrderedMap.empty,rules,
      c.subscription.lastSentAt⟩,true,c.subscriptionBuffer,false⟩ := by
  unfold subscribe
  simp only
  split <;> rfl

theorem subscribe_topicToSockets : (subscribe socket c topics rules s).topicToSockets =
    (s.topicToSockets.dropAll socket (topicsOf s socket)).addAll socket topics := by
  unfold subscribe
  cases topics with
  | nil =>
    simp only [List.isEmpty_nil, if_true]
    split <;> rfl
  | cons a topics =>
    simp only [List.isEmpty_cons, Bool.false_eq_true, if_false]
    split <;> rfl

theorem mem_subscribe_wildcard (x : σ) :
    x ∈ (subscribe socket c topics rules s).wildcardSockets.keys ↔
      (x ≠ socket ∧ x ∈ s.wildcardSockets.keys) ∨ (topics = [] ∧ x = socket) := by
  cases topics with
  | nil =>
    have heq : (subscribe socket c [] rules s).wildcardSockets =
        (s.wildcardSockets.delete socket).add socket := by
      unfold subscribe
      simp only [List.isEmpty_nil, if_true]
      split <;> rfl
    rw [heq, OrderedMap.mem_add, OrderedMap.mem_delete]
    tauto
  | cons a topics =>
    have heq : (subscribe socket c (a::topics) rules s).wildcardSockets =
        (s.wildcardSockets.delete socket).delete socket := by
      unfold subscribe
      simp only [List.isEmpty_cons, Bool.false_eq_true, if_false]
      split <;> rfl
    rw [heq, OrderedMap.mem_delete, OrderedMap.mem_delete]
    simp

theorem subscribe_moved : (subscribe socket c topics rules s).subscriptions =
      (if s.pendingSubscriptions.has socket then s.subscriptions.add socket else s.subscriptions) ∧
    (subscribe socket c topics rules s).pendingSubscriptions =
      if s.pendingSubscriptions.has socket then s.pendingSubscriptions.delete socket
      else s.pendingSubscriptions := by
  unfold subscribe
  simp only
  split
  · exact ⟨rfl,rfl⟩
  · split <;> exact ⟨rfl,rfl⟩

theorem subscribe_rest : (subscribe socket c topics rules s).slowClients = s.slowClients ∧
    (subscribe socket c topics rules s).destroyed = s.destroyed ∧
    (subscribe socket c topics rules s).started = s.started := by
  unfold subscribe
  simp only
  refine ⟨?_,?_,?_⟩
  · split <;> split <;> rfl
  · split <;> split <;> rfl
  · split <;> split <;> rfl

end

theorem subscribe_subscribed {s : Server σ} (h : Index s) {socket : σ} {c : Connection}
    (hc : s.connections.get? socket = some c)
    (hlive : socket ∈ s.subscriptions.keys ∨ socket ∈ s.pendingSubscriptions.keys)
    (topics : List String) (rules : ClientRoutingRules) :
    Subscribed socket topics s (subscribe socket c topics rules s) := by
  have hconnections := subscribe_connections socket c topics rules s
  obtain ⟨hslow,hdestroyed,hstarted⟩ := subscribe_rest socket c topics rules s
  have hown : ∀ t, t ∈ topicsOf (subscribe socket c topics rules s) socket ↔ t ∈ topics := by
    intro t
    unfold topicsOf
    rw [hconnections, OrderedMap.get?_set, if_pos rfl]
    simp [mem_names]
  have hothers : ∀ x, x ≠ socket → topicsOf (subscribe socket c topics rules s) x =
      topicsOf s x := by
    intro x hx
    unfold topicsOf
    rw [hconnections, OrderedMap.get?_set, if_neg hx]
  have hindexed : ∀ t x, x ∈ (subscribe socket c topics rules s).topicToSockets.members t ↔
      (x ≠ socket ∧ x ∈ s.topicToSockets.members t) ∨ (t ∈ topics ∧ x = socket) := by
    intro t x
    rw [subscribe_topicToSockets, SetIndex.members_addAll, SetIndex.members_dropAll, and_comm]
    refine or_congr_left (and_congr_left fun hm => not_congr ⟨And.right,?_⟩)
    rintro rfl
    exact ⟨((h.topics t x).mp hm).2,rfl⟩
  have hkeys : ∀ x, x ∈ (subscribe socket c topics rules s).connections.keys ↔
      x ∈ s.connections.keys := by
    intro x
    rw [hconnections, OrderedMap.mem_set]
    refine or_iff_right_of_imp ?_
    rintro rfl
    exact mem_keys_of_get? hc
  obtain ⟨hsubscriptions,hpendings⟩ := subscribe_moved socket c topics rules s
  by_cases hpending : socket ∈ s.pendingSubscriptions.keys
  · rw [if_pos ((OrderedMap.has_iff _ _).mpr hpending)] at hsubscriptions hpendings
    refine ⟨hown,hothers,fun x => ?_,fun x => ?_,hindexed,
      mem_subscribe_wildcard socket c topics rules s,hkeys,hslow,hdestroyed,hstarted,?_⟩
    · rw [hsubscriptions, OrderedMap.mem_add]
    · rw [hpendings, OrderedMap.mem_delete]
    · have hsize := OrderedMap.size_delete_of_mem hpending
      rw [hsubscriptions, hpendings, OrderedMap.add, OrderedMap.size_set]
      split <;> omega
  · rw [if_neg (fun hhas => hpending ((OrderedMap.has_iff _ _).mp hhas))] at hsubscriptions
    rw [if_neg (fun hhas => hpending ((OrderedMap.has_iff _ _).mp hhas))] at hpendings
    refine ⟨hown,hothers,fun x => ?_,fun x => ?_,hindexed,
      mem_subscribe_wildcard socket c topics rules s,hkeys,hslow,hdestroyed,hstarted,?_⟩
    · rw [hsubscriptions]
      refine (or_iff_right_of_imp ?_).symm
      rintro rfl
      exact hlive.resolve_right hpending
    · rw [hpendings]
      exact ne_and_of_notMem hpending
    · rw [hsubscriptions, hpendings]

theorem data_index {D : Type*} (R : Doubles D) {s : Server σ} (h : Index s) {socket : σ}
    (hknown : socket ∈ s.connections.keys) (hlive : socket ∉ s.destroyed) (chunk : List UInt8) :
    Index (handleSubscriptionMessage R socket chunk s) := by
  unfold handleSubscriptionMessage
  split
  · exact h
  · rename_i c hc
    simp only
    split
    · exact index_alike h (setBuffer_alike socket _ s) (by
        rw [setBuffer_slowClients]
        exact h.slow)
    · rename_i items route _
      have hserved := h.served socket hknown hlive
      have hsubscribed := subscribed_index h hserved (subscribe_subscribed h hc hserved
        (topicNames items) (parseRoutingRules R route))
      refine index_alike hsubscribed (setBuffer_alike socket _ _) ?_
      rw [setBuffer_slowClients]
      exact hsubscribed.slow

theorem clearTimer_index {s : Server σ} (h : Index s) (socket : σ) : Index (clearTimer socket s) := by
  refine index_alike h (clearTimer_alike socket s) ?_
  rw [clearTimer_slowClients]
  exact h.slow

theorem gone_index {s : Server σ} (h : Index s) (socket : σ) : Index (socketGone socket s) :=
  removeClient_index (clearTimer_index h socket) socket

theorem timeout_index {s : Server σ} (h : Index s) (socket : σ) :
    Index (handshakeTimeout socket s) := by
  unfold handshakeTimeout
  split
  · exact h
  · simp only
    split
    · -- to destroy the socket first comes to the same as to destroy it again
      have hcleared := clearTimer_index h socket
      have hremoved := removeClient_removed hcleared socket
      have hgone : Index { removeClient socket (clearTimer socket s) with
          destroyed := socket::(removeClient socket (clearTimer socket s)).destroyed } :=
        destroy_index (removed_index hcleared hremoved)
          (fun hx => ((hremoved.subscriptions socket).mp hx).1 rfl)
          (fun hx => ((hremoved.pending socket).mp hx).1 rfl)
      rw [removeClient_destroyed]
      exact hgone
    · exact clearTimer_index h socket

theorem start_index {s : Server σ} (h : Index s) : Index (start s) :=
  ⟨h.topics,h.wildcard,h.slow,h.pending,h.live,h.served,h.capacity,fun hs => by cases hs⟩

theorem stop_index {s : Server σ} (h : Index s) : Index (stop s) := by
  unfold stop
  split
  · exact h
  · refine ⟨fun t x => ?_,fun x => ?_,fun x hx => ?_,fun x hx => ?_,fun x hx => ?_,
      fun x hx hd => ?_,?_,fun _ => ⟨rfl,rfl⟩⟩
    · simp
    · simp
    · simp at hx
    · simp at hx
    · simp at hx
    · have hold := h.served x hx (fun hmem => hd (List.mem_append_right _ hmem))
      exact absurd (List.mem_append_left _ (List.mem_append.mpr hold)) hd
    · simp

structure Exact (s : Server σ) : Prop where
  topics : ∀ t x, x ∈ s.topicToSockets.members t ↔ x ∈ s.subscriptions.keys ∧ t ∈ topicsOf s x
  wildcard : ∀ x, x ∈ s.wildcardSockets.keys ↔ x ∈ s.subscriptions.keys ∧ topicsOf s x = []
  inhabited : ∀ t xs, s.topicToSockets.sets.get? t = some xs → xs.keys ≠ []
  inactive : ∀ x ∉ s.subscriptions.keys, (∀ t, x ∉ s.topicToSockets.members t) ∧
    x ∉ s.wildcardSockets.keys ∧ x ∉ s.slowClients.keys
  pending : ∀ x ∈ s.pendingSubscriptions.keys, x ∉ s.subscriptions.keys
  destroyed : ∀ x ∈ s.destroyed, x ∉ s.subscriptions.keys ∧ x ∉ s.pendingSubscriptions.keys
  capacity : s.subscriptions.size+s.pendingSubscriptions.size ≤ maxClients

theorem index_exact {s : Server σ} (h : Index s) : Exact s where
  topics := h.topics
  wildcard := h.wildcard
  inhabited := s.topicToSockets.inhabited
  inactive := fun x hx => ⟨fun t hm => hx ((h.topics t x).mp hm).1,
    fun hm => hx ((h.wildcard x).mp hm).1,fun hm => hx (h.slow x hm)⟩
  pending := h.pending
  destroyed := fun x hx =>
    ⟨fun hm => (h.live x (Or.inl hm)).2 hx,fun hm => (h.live x (Or.inr hm)).2 hx⟩
  capacity := h.capacity

end Iotistica.SocketIndex
