import Iotistica.GuardedRun
import Iotistica.SocketIndex

/-!
# What the socket server delivers

A call of `sendData` visits each client of the topic once, and a visit changes
no other client. The counter of an active client is the row of its last writes
that met a full buffer, so the fourth of them removes it.
-/

set_option autoImplicit false

namespace Iotistica.SocketDelivery
open Iotistica.GuardedRun Iotistica.JsonText Iotistica.JsonDoubles Iotistica.SocketServer
open Iotistica.SocketIndex

variable {V σ : Type*} [DecidableEq σ]

def streak (writes : List (Write σ V)) (socket : σ) : ℕ :=
  ((writes.filter (fun w => w.socket = socket)).takeWhile (fun w => w.result = .full)).length

theorem streak_congr {ws ws' : List (Write σ V)} {socket : σ}
    (h : ws.filter (fun w => w.socket = socket) = ws'.filter (fun w => w.socket = socket)) :
    streak ws socket = streak ws' socket := by
  unfold streak
  rw [h]

theorem streak_cons_self (w : Write σ V) (ws : List (Write σ V)) :
    streak (w::ws) w.socket = if w.result = .full then streak ws w.socket+1 else 0 := by
  unfold streak
  rw [List.filter_cons, if_pos (by simp), List.takeWhile_cons]
  by_cases hfull : w.result = .full
  · simp [hfull]
  · simp [hfull]

theorem filter_cons_other {w : Write σ V} {socket : σ} (h : w.socket ≠ socket)
    (ws : List (Write σ V)) :
    (w::ws).filter (fun w => w.socket = socket) = ws.filter (fun w => w.socket = socket) := by
  rw [List.filter_cons, if_neg (by simpa using h)]

theorem streak_cons_other {x socket : σ} (h : x ≠ socket) (points : List (DeviceDataPoint V))
    (result : WriteResult) (ws : List (Write σ V)) :
    streak (⟨socket,points,result⟩::ws) x = streak ws x :=
  streak_congr (filter_cons_other h.symm ws)

theorem streak_of_unwritten {ws : List (Write σ V)} {socket : σ}
    (h : ∀ w ∈ ws, w.socket ≠ socket) : streak ws socket = 0 := by
  have hnone : ws.filter (fun w => w.socket = socket) = [] :=
    List.filter_eq_nil_iff.mpr fun w hw => by simpa using h w hw
  unfold streak
  rw [hnone]
  rfl

structure Sound (h : History σ V) : Prop where
  index : Index h.server
  counted : ∀ x ∈ h.server.subscriptions.keys,
    (h.server.slowClients.get? x).getD 0 = streak h.writes x
  short : ∀ x ∈ h.server.subscriptions.keys, streak h.writes x ≤ backpressureThreshold
  written : ∀ w ∈ h.writes, w.socket ∈ h.server.connections.keys
  fresh : ∀ x ∈ h.server.pendingSubscriptions.keys, ∀ w ∈ h.writes, w.socket ≠ x

def due (dataPoints : List (DeviceDataPoint V)) (answers : σ → Answer) (s : Server σ) (x : σ) :
    List (DeviceDataPoint V) := pointsFor s dataPoints (answers x).askedAt x

/-- The write to a client removes it: it throws, or it is the fourth in a row
to meet a full buffer. -/
def Fatal (answer : Answer) (writes : List (Write σ V)) (x : σ) : Prop :=
  answer.result = .threw ∨ answer.result = .full ∧ streak writes x = backpressureThreshold

structure Unmoved (x : σ) (s s' : Server σ) : Prop where
  active : x ∈ s'.subscriptions.keys ↔ x ∈ s.subscriptions.keys
  connection : s'.connections.get? x = s.connections.get? x

theorem Unmoved.due {x : σ} {s s' : Server σ} (h : Unmoved x s s')
    (dataPoints : List (DeviceDataPoint V)) (answers : σ → Answer) :
    due dataPoints answers s' x = due dataPoints answers s x := by
  have hhas : s'.subscriptions.has x = s.subscriptions.has x := by
    rw [Bool.eq_iff_iff, OrderedMap.has_iff, OrderedMap.has_iff]
    exact h.active
  unfold SocketDelivery.due pointsFor
  rw [hhas, h.connection]

theorem active_of_due {dataPoints : List (DeviceDataPoint V)} {answers : σ → Answer}
    {s : Server σ} {x : σ} (h : due dataPoints answers s x ≠ []) : x ∈ s.subscriptions.keys := by
  unfold due pointsFor at h
  split at h
  · rename_i hhas
    exact (OrderedMap.has_iff _ _).mp hhas
  · exact absurd rfl h

structure Sent (answer : Answer) (socket : σ) (h : History σ V) (points : List (DeviceDataPoint V))
    (s' : Server σ) : Prop where
  sound : Sound ⟨s',⟨socket,points,answer.result⟩::h.writes⟩
  topicsOf : ∀ x, topicsOf s' x = topicsOf h.server x
  others : ∀ x, x ≠ socket → Unmoved x h.server s'
  active : socket ∈ s'.subscriptions.keys ↔ ¬Fatal answer h.writes socket

theorem removed_sent {answer : Answer} {socket : σ} {h : History σ V}
    {points : List (DeviceDataPoint V)} {s' : Server σ} (hs : Sound h)
    (hactive : socket ∈ h.server.subscriptions.keys) (hr : Removed socket h.server s')
    (hfatal : Fatal answer h.writes socket) : Sent answer socket h points s' := by
  have hkept : ∀ x ∈ s'.subscriptions.keys, x ≠ socket ∧ x ∈ h.server.subscriptions.keys :=
    fun x hx => (hr.subscriptions x).mp hx
  refine ⟨⟨removed_index hs.index hr,fun x hx => ?_,fun x hx => ?_,fun w hw => ?_,
    fun x hx w hw => ?_⟩,fun x => ?_,fun x hx => ⟨?_,by rw [hr.connections]⟩,?_⟩
  · obtain ⟨hne,hold⟩ := hkept x hx
    rw [hr.slow, if_neg hne, streak_cons_other hne]
    exact hs.counted x hold
  · obtain ⟨hne,hold⟩ := hkept x hx
    exact (streak_cons_other hne points answer.result h.writes).le.trans (hs.short x hold)
  · change w.socket ∈ s'.connections.keys
    rw [hr.connections]
    rcases List.mem_cons.mp hw with rfl | hw
    · exact (hs.index.live socket (Or.inl hactive)).1
    · exact hs.written w hw
  · obtain ⟨hne,hold⟩ := (hr.pending x).mp hx
    rcases List.mem_cons.mp hw with rfl | hw
    · exact hne.symm
    · exact hs.fresh x hold w hw
  · unfold SocketServer.topicsOf
    rw [hr.connections]
  · rw [hr.subscriptions]
    exact and_iff_right hx
  · rw [hr.subscriptions]
    exact iff_of_false (fun h => h.1 rfl) (fun hnot => hnot hfatal)

theorem kept_sent {answer : Answer} {socket : σ} {h : History σ V}
    {points : List (DeviceDataPoint V)} {s' : Server σ} (hs : Sound h)
    (hactive : socket ∈ h.server.subscriptions.keys) (ha : Alike h.server s')
    (hconnection : ∀ x, x ≠ socket → s'.connections.get? x = h.server.connections.get? x)
    (hslow : ∀ x, x ≠ socket → s'.slowClients.get? x = h.server.slowClients.get? x)
    (hcounted : (s'.slowClients.get? socket).getD 0 =
      streak (⟨socket,points,answer.result⟩::h.writes) socket)
    (hshort : streak (⟨socket,points,answer.result⟩::h.writes) socket ≤ backpressureThreshold)
    (hfatal : ¬Fatal answer h.writes socket) : Sent answer socket h points s' := by
  have hindex : Index s' := by
    refine index_alike hs.index ha fun x hx => ?_
    by_cases hne : x = socket
    · rw [hne]
      exact hactive
    · obtain ⟨e,he,rfl⟩ := List.mem_map.mp hx
      have hget := hslow e.1 hne
      rw [OrderedMap.get?_of_mem he] at hget
      exact hs.index.slow _ (mem_keys_of_get? hget.symm)
  refine ⟨⟨hindex,fun x hx => ?_,fun x hx => ?_,fun w hw => ?_,fun x hx w hw => ?_⟩,ha.topicsOf,
    fun x hx => ⟨by rw [ha.subscriptions],hconnection x hx⟩,?_⟩
  · by_cases hne : x = socket
    · rw [hne]
      exact hcounted
    · rw [hslow x hne, streak_cons_other hne]
      exact hs.counted x (ha.subscriptions ▸ hx)
  · by_cases hne : x = socket
    · rw [hne]
      exact hshort
    · rw [streak_cons_other hne]
      exact hs.short x (ha.subscriptions ▸ hx)
  · rw [ha.connections]
    rcases List.mem_cons.mp hw with rfl | hw
    · exact (hs.index.live socket (Or.inl hactive)).1
    · exact hs.written w hw
  · rw [ha.pendingSubscriptions] at hx
    rcases List.mem_cons.mp hw with rfl | hw
    · rintro rfl
      exact hs.index.pending _ hx hactive
    · exact hs.fresh x hx w hw
  · rw [ha.subscriptions]
    exact iff_of_true hactive hfatal

theorem raised_index {s : Server σ} (h : Index s) {socket : σ}
    (hactive : socket ∈ s.subscriptions.keys) (n : ℕ) :
    Index { s with slowClients := s.slowClients.set socket n } := by
  refine index_alike h ⟨rfl,rfl,rfl,rfl,rfl,rfl,fun _ => Iff.rfl,fun _ => rfl⟩ ?_
  intro x hx
  rw [OrderedMap.mem_set] at hx
  rcases hx with rfl | hx
  · exact hactive
  · exact h.slow x hx

theorem raised_removed {s : Server σ} (h : Index s) {socket : σ}
    (hactive : socket ∈ s.subscriptions.keys) (n : ℕ) :
    Removed socket s (removeClient socket
      { s with slowClients := s.slowClients.set socket n }) := by
  have hr := removeClient_removed (raised_index h hactive n) socket
  refine { hr with slow := fun x => ?_ }
  rw [hr.slow]
  split
  · rfl
  · rename_i hne
    exact (OrderedMap.get?_set _ _ x _).trans (if_neg hne)

theorem full_sent {h : History σ V} (hs : Sound h) {socket : σ}
    (hactive : socket ∈ h.server.subscriptions.keys) {answer : Answer}
    (hfull : answer.result = .full) (points : List (DeviceDataPoint V)) :
    Sent answer socket h points (sendToSocket answer socket h.server) := by
  have hrow := streak_cons_self (⟨socket,points,answer.result⟩ : Write σ V) h.writes
  simp only [hfull, if_true] at hrow
  have hbelow := hs.short socket hactive
  unfold sendToSocket
  simp only [hfull, hs.counted socket hactive]
  split
  · rename_i hover
    have heq : streak h.writes socket = backpressureThreshold := by omega
    exact removed_sent hs hactive (raised_removed hs.index hactive _) (Or.inr ⟨hfull,heq⟩)
  · rename_i hunder
    have hset : ∀ x, (h.server.slowClients.set socket (streak h.writes socket+1)).get? x =
        if x = socket then some (streak h.writes socket+1) else h.server.slowClients.get? x :=
      fun x => OrderedMap.get?_set _ _ x _
    refine kept_sent hs hactive ⟨rfl,rfl,rfl,rfl,rfl,rfl,fun _ => Iff.rfl,fun _ => rfl⟩
      (fun _ _ => rfl) (fun x hx => (hset x).trans (if_neg hx)) ?_ ?_ ?_
    · rw [hfull, hrow, hset, if_pos rfl]
      rfl
    · rw [hfull, hrow]
      omega
    · rintro (hthrew | ⟨-,heq⟩)
      · rw [hfull] at hthrew
        cases hthrew
      · omega

theorem flushed_sent {h : History σ V} (hs : Sound h) {socket : σ}
    (hactive : socket ∈ h.server.subscriptions.keys) {answer : Answer}
    (hflushed : answer.result = .flushed) (points : List (DeviceDataPoint V)) :
    Sent answer socket h points (sendToSocket answer socket h.server) := by
  have hrow := streak_cons_self (⟨socket,points,answer.result⟩ : Write σ V) h.writes
  simp only [hflushed, reduceCtorEq, if_false] at hrow
  have hdelete : ∀ x, (h.server.slowClients.delete socket).get? x =
      if x = socket then none else h.server.slowClients.get? x := OrderedMap.get?_delete _ _
  have ha := setLastSentAt_alike socket answer.sentAt
    { h.server with slowClients := h.server.slowClients.delete socket }
  have hslow := setLastSentAt_slowClients socket answer.sentAt
    { h.server with slowClients := h.server.slowClients.delete socket }
  unfold sendToSocket
  simp only [hflushed]
  refine kept_sent hs hactive ⟨ha.1,ha.2,ha.3,ha.4,ha.5,ha.6,ha.7,ha.8⟩
    (fun x hx => setLastSentAt_other _ _ hx) (fun x hx => ?_) ?_ ?_ ?_
  · rw [hslow]
    exact (hdelete x).trans (if_neg hx)
  · rw [hflushed, hrow, hslow, hdelete, if_pos rfl]
    rfl
  · rw [hflushed, hrow]
    exact Nat.zero_le _
  · rintro (hthrew | ⟨hfull,-⟩)
    · rw [hflushed] at hthrew
      cases hthrew
    · rw [hflushed] at hfull
      cases hfull

theorem sendToSocket_sent {h : History σ V} (hs : Sound h) {socket : σ}
    (hactive : socket ∈ h.server.subscriptions.keys) (answer : Answer)
    (points : List (DeviceDataPoint V)) :
    Sent answer socket h points (sendToSocket answer socket h.server) := by
  cases hresult : answer.result with
  | full => exact full_sent hs hactive hresult points
  | flushed => exact flushed_sent hs hactive hresult points
  | threw =>
    have hremoved : Sent answer socket h points (removeClient socket h.server) :=
      removed_sent hs hactive (removeClient_removed hs.index socket) (Or.inl hresult)
    unfold sendToSocket
    simpa only [hresult] using hremoved

def writesTo (ws : List (Write σ V)) (x : σ) : List (Write σ V) :=
  ws.filter (fun w => w.socket = x)

structure Passed (dataPoints : List (DeviceDataPoint V)) (answers : σ → Answer)
    (base : List (Write σ V)) (sockets : List σ) (r r' : Round σ V) : Prop where
  sound : Sound ⟨r'.server,r'.writes++base⟩
  topicsOf : ∀ x, topicsOf r'.server x = topicsOf r.server x
  outside : ∀ x ∉ sockets, Unmoved x r.server r'.server ∧ writesTo r'.writes x = writesTo r.writes x
  inside : ∀ x ∈ sockets,
    (writesTo r'.writes x = if due dataPoints answers r.server x = [] then writesTo r.writes x
      else ⟨x,due dataPoints answers r.server x,(answers x).result⟩::writesTo r.writes x) ∧
    (x ∈ r'.server.subscriptions.keys ↔ x ∈ r.server.subscriptions.keys ∧
      (due dataPoints answers r.server x ≠ [] → ¬Fatal (answers x) (r.writes++base) x))
  sentTo : ∀ x ∈ r'.sentTo, x ∈ sockets ∨ x ∈ r.sentTo

variable (dataPoints : List (DeviceDataPoint V)) (answers : σ → Answer) (base : List (Write σ V))

theorem visit_passed {r : Round σ V} (hs : Sound ⟨r.server,r.writes++base⟩) (socket : σ) :
    Passed dataPoints answers base [socket] r
      (routeAndSendToSocket dataPoints answers r socket) := by
  have hdue : pointsFor r.server dataPoints (answers socket).askedAt socket =
      due dataPoints answers r.server socket := rfl
  unfold routeAndSendToSocket
  simp only [hdue]
  split
  · rename_i hempty
    rw [List.isEmpty_iff] at hempty
    refine ⟨hs,fun _ => rfl,fun x _ => ⟨⟨Iff.rfl,rfl⟩,rfl⟩,fun x hx => ?_,fun x hx => Or.inr hx⟩
    obtain rfl := List.mem_singleton.mp hx
    rw [if_pos hempty]
    exact ⟨rfl,iff_self_and.mpr fun _ hne => absurd hempty hne⟩
  · rename_i hnonempty
    rw [List.isEmpty_iff] at hnonempty
    have hactive := active_of_due hnonempty
    have hsent := sendToSocket_sent hs hactive (answers socket)
      (due dataPoints answers r.server socket)
    refine ⟨hsent.sound,hsent.topicsOf,fun x hx => ?_,fun x hx => ?_,fun x hx => ?_⟩
    · have hne : x ≠ socket := fun he => hx (List.mem_singleton.mpr he)
      exact ⟨hsent.others x hne,filter_cons_other hne.symm _⟩
    · obtain rfl := List.mem_singleton.mp hx
      rw [if_neg hnonempty]
      refine ⟨List.filter_cons_of_pos (by simp),?_⟩
      rw [hsent.active, and_iff_right hactive]
      exact ⟨fun h _ => h,fun h => h hnonempty⟩
    · dsimp only at hx
      split at hx
      · rcases List.mem_cons.mp hx with rfl | hx
        · exact Or.inl (List.mem_singleton.mpr rfl)
        · exact Or.inr hx
      · exact Or.inr hx

theorem pass_passed (sockets : List σ) (hnodup : sockets.Nodup) {r : Round σ V}
    (hs : Sound ⟨r.server,r.writes++base⟩) :
    Passed dataPoints answers base sockets r
      (sockets.foldl (routeAndSendToSocket dataPoints answers) r) := by
  induction sockets generalizing r with
  | nil =>
    exact ⟨hs,fun _ => rfl,fun x _ => ⟨⟨Iff.rfl,rfl⟩,rfl⟩,fun x hx => absurd hx List.not_mem_nil,
      fun x hx => Or.inr hx⟩
  | cons socket sockets ih =>
    obtain ⟨hout,hnodup⟩ := List.nodup_cons.mp hnodup
    have hfirst := visit_passed dataPoints answers base hs socket
    have hrest := ih hnodup hfirst.sound
    rw [List.foldl_cons]
    refine ⟨hrest.sound,fun x => (hrest.topicsOf x).trans (hfirst.topicsOf x),fun x hx => ?_,
      fun x hx => ?_,fun x hx => ?_⟩
    · rw [List.mem_cons, not_or] at hx
      have h1 := hfirst.outside x (by simpa using hx.1)
      have h2 := hrest.outside x hx.2
      exact ⟨⟨h2.1.active.trans h1.1.active,h2.1.connection.trans h1.1.connection⟩,
        h2.2.trans h1.2⟩
    · rcases List.mem_cons.mp hx with rfl | hlater
      · have h1 := hfirst.inside x (List.mem_singleton.mpr rfl)
        have h2 := hrest.outside x hout
        rw [h2.2, h2.1.active]
        exact h1
      · have hne : x ≠ socket := by
          rintro rfl
          exact hout hlater
        have h1 := hfirst.outside x (by simpa using hne)
        have h2 := hrest.inside x hlater
        have hstreak : streak ((routeAndSendToSocket dataPoints answers r socket).writes++base) x =
            streak (r.writes++base) x := by
          refine streak_congr ?_
          rw [List.filter_append, List.filter_append]
          exact congrArg (·++_) h1.2
        rw [h1.1.due, h1.2, h1.1.active] at h2
        unfold Fatal at h2 ⊢
        rw [hstreak] at h2
        exact h2
    · rcases hrest.sentTo x hx with hx | hx
      · exact Or.inl (List.mem_cons_of_mem _ hx)
      · rcases hfirst.sentTo x hx with hx | hx
        · exact Or.inl (by simpa using Or.inl (List.mem_singleton.mp hx))
        · exact Or.inr hx

theorem fold_unskipped (sockets : List σ) (hnodup : sockets.Nodup) {r : Round σ V}
    (hs : Sound ⟨r.server,r.writes++base⟩) (hunsent : ∀ x ∈ sockets, x ∉ r.sentTo) :
    sockets.foldl (fun r socket => if socket ∈ r.sentTo then r
        else routeAndSendToSocket dataPoints answers r socket) r =
      sockets.foldl (routeAndSendToSocket dataPoints answers) r := by
  induction sockets generalizing r with
  | nil => rfl
  | cons socket sockets ih =>
    obtain ⟨hout,hnodup⟩ := List.nodup_cons.mp hnodup
    have hfirst := visit_passed dataPoints answers base hs socket
    rw [List.foldl_cons, List.foldl_cons, if_neg (hunsent socket List.mem_cons_self)]
    refine ih hnodup hfirst.sound fun x hx hsent => ?_
    rcases hfirst.sentTo x hsent with hx' | hx'
    · obtain rfl := List.mem_singleton.mp hx'
      exact hout hx
    · exact hunsent x (List.mem_cons_of_mem _ hx) hx'

/-- An active client that has subscribed to the topic, or to all, and whose
rules leave points to send. -/
def Eligible (s : Server σ) (dataPoints : List (DeviceDataPoint V)) (topic : String)
    (answers : σ → Answer) (x : σ) : Prop :=
  x ∈ s.subscriptions.keys ∧ (topicsOf s x = [] ∨ topic ∈ topicsOf s x) ∧
    due dataPoints answers s x ≠ []

/-- What a call of `sendData` does to each client. -/
structure Delivers (h : History σ V) (dataPoints : List (DeviceDataPoint V)) (topic : String)
    (answers : σ → Answer) (r : Round σ V) : Prop where
  once : ∀ x, Eligible h.server dataPoints topic answers x →
    writesTo r.writes x = [⟨x,due dataPoints answers h.server x,(answers x).result⟩]
  never : ∀ x, ¬Eligible h.server dataPoints topic answers x → writesTo r.writes x = []
  removed : ∀ x ∈ h.server.subscriptions.keys, x ∉ r.server.subscriptions.keys ↔
    Eligible h.server dataPoints topic answers x ∧ Fatal (answers x) h.writes x

theorem client_of_passes {h : History σ V} (hs : Sound h) {topic : String} {named r : Round σ V}
    (hnamed : Passed dataPoints answers h.writes (h.server.topicToSockets.members topic)
      ⟨h.server,[],[]⟩ named)
    (hall : Passed dataPoints answers h.writes named.server.wildcardSockets.keys named r) (x : σ) :
    (writesTo r.writes x = if due dataPoints answers h.server x ≠ [] ∧
        (topicsOf h.server x = [] ∨ topic ∈ topicsOf h.server x) then
      [⟨x,due dataPoints answers h.server x,(answers x).result⟩] else []) ∧
    (x ∈ r.server.subscriptions.keys ↔ x ∈ h.server.subscriptions.keys ∧
      (Eligible h.server dataPoints topic answers x → ¬Fatal (answers x) h.writes x)) := by
  have hwild := hnamed.sound.index.wildcard x
  rw [hnamed.topicsOf] at hwild
  have htopic := hs.index.topics topic x
  by_cases hmem : x ∈ h.server.topicToSockets.members topic
  · obtain ⟨hactive,hx⟩ := htopic.mp hmem
    have hout : x ∉ named.server.wildcardSockets.keys := by
      rw [hwild]
      rintro ⟨-,hempty⟩
      rw [hempty] at hx
      cases hx
    have h1 := hnamed.inside x hmem
    have h2 := hall.outside x hout
    rw [h2.2, h2.1.active, h1.1, h1.2]
    unfold Eligible
    by_cases hdue : due dataPoints answers h.server x = []
    · simp [hdue, writesTo]
    · simp [hdue, hx, hactive, writesTo]
  · have h1 := hnamed.outside x hmem
    have hnone : writesTo named.writes x = [] := h1.2
    have hstreak : streak (named.writes++h.writes) x = streak h.writes x := by
      refine streak_congr ?_
      rw [List.filter_append]
      exact congrArg (·++_) hnone
    by_cases hall' : x ∈ named.server.wildcardSockets.keys
    · obtain ⟨hactive,hempty⟩ := hwild.mp hall'
      rw [h1.1.active] at hactive
      have h2 := hall.inside x hall'
      rw [h1.1.due, hnone, h1.1.active] at h2
      unfold Fatal at h2 ⊢
      rw [hstreak] at h2
      rw [h2.1, h2.2]
      unfold Eligible
      by_cases hdue : due dataPoints answers h.server x = []
      · simp [hdue]
      · simp [hdue, hempty, hactive]
    · have h2 := hall.outside x hall'
      have hneither : x ∈ h.server.subscriptions.keys →
          ¬(topicsOf h.server x = [] ∨ topic ∈ topicsOf h.server x) := by
        rintro hactive (hempty | hx)
        · exact hall' (hwild.mpr ⟨h1.1.active.mpr hactive,hempty⟩)
        · exact hmem (htopic.mpr ⟨hactive,hx⟩)
      rw [h2.2, h2.1.active, h1.1.active, hnone]
      refine ⟨(if_neg ?_).symm,?_⟩
      · rintro ⟨hdue,hx⟩
        exact hneither (active_of_due hdue) hx
      · exact iff_self_and.mpr fun hactive he => absurd he.2.1 (hneither hactive)

theorem sendData_delivers {h : History σ V} (hs : Sound h) (dataPoints : List (DeviceDataPoint V))
    (topic : String) (answers : σ → Answer) :
    Sound ⟨(sendData dataPoints topic answers h.server).server,
        (sendData dataPoints topic answers h.server).writes++h.writes⟩ ∧
      Delivers h dataPoints topic answers (sendData dataPoints topic answers h.server) := by
  unfold sendData
  split
  · rename_i hidle
    have hnone : ∀ x, x ∉ h.server.subscriptions.keys := by
      rw [← List.eq_nil_iff_forall_not_mem]
      rw [Bool.or_eq_true, Bool.not_eq_true', beq_iff_eq, OrderedMap.size_eq,
        List.length_eq_zero_iff] at hidle
      exact hidle.elim (fun hstopped => (hs.index.stopped hstopped).1) id
    exact ⟨hs,fun x hx => absurd hx.1 (hnone x),fun _ _ => rfl,fun x hx => absurd hx (hnone x)⟩
  · simp only
    have hnamed := pass_passed dataPoints answers h.writes
      (h.server.topicToSockets.members topic) (SetIndex.nodup_members _ _)
      (r := ⟨h.server,[],[]⟩) hs
    generalize (h.server.topicToSockets.members topic).foldl
      (routeAndSendToSocket dataPoints answers) ⟨h.server,[],[]⟩ = named at hnamed ⊢
    have hnodup : named.server.wildcardSockets.keys.Nodup := named.server.wildcardSockets.nodup
    have hunsent : ∀ x ∈ named.server.wildcardSockets.keys, x ∉ named.sentTo := by
      intro x hx hsent
      have hempty := ((hnamed.sound.index.wildcard x).mp hx).2
      rw [hnamed.topicsOf] at hempty
      have hmem := (hnamed.sentTo x hsent).resolve_right List.not_mem_nil
      have htopics := ((hs.index.topics topic x).mp hmem).2
      rw [hempty] at htopics
      cases htopics
    rw [fold_unskipped dataPoints answers h.writes _ hnodup hnamed.sound hunsent]
    have hall := pass_passed dataPoints answers h.writes named.server.wildcardSockets.keys
      hnodup hnamed.sound
    generalize named.server.wildcardSockets.keys.foldl
      (routeAndSendToSocket dataPoints answers) named = r at hall ⊢
    have hclient := client_of_passes dataPoints answers hs hnamed hall
    refine ⟨hall.sound,fun x hx => ?_,fun x hx => ?_,fun x hx => ?_⟩
    · rw [(hclient x).1, if_pos ⟨hx.2.2,hx.2.1⟩]
    · rw [(hclient x).1, if_neg fun hboth => hx ⟨active_of_due hboth.1,hboth.2,hboth.1⟩]
    · rw [(hclient x).2, and_iff_right hx, Classical.not_imp, not_not]

def TopicStrings (c : Connection) (chunk : List UInt8) : Prop :=
  ∀ items route, (linesOf c chunk).1.findSome? subscribeMessage = some (items,route) →
    ∀ v ∈ items, ∃ t, v = .str t

/-- What the runtime and the clients keep to: a connection is a new object, to
a server that listens, and no data comes in after the destruction of a socket. -/
def Possible (h : History σ V) : Event σ V → Prop
  | .connection socket => h.server.started = true ∧ socket ∉ h.server.connections.keys ∧
      socket ∉ h.server.destroyed
  | .data socket chunk => socket ∈ h.server.connections.keys ∧ socket ∉ h.server.destroyed ∧
      ∀ c, h.server.connections.get? socket = some c → TopicStrings c chunk
  | _ => True

structure Quiet (s s' : Server σ) : Prop where
  subscriptions : ∀ x ∈ s'.subscriptions.keys, x ∈ s.subscriptions.keys ∧
    s'.slowClients.get? x = s.slowClients.get? x
  pending : ∀ x ∈ s'.pendingSubscriptions.keys, x ∈ s.pendingSubscriptions.keys
  connections : ∀ x ∈ s.connections.keys, x ∈ s'.connections.keys

theorem quiet_sound {h : History σ V} {s' : Server σ} (hs : Sound h) (hq : Quiet h.server s')
    (hindex : Index s') : Sound ⟨s',h.writes⟩ where
  index := hindex
  counted := fun x hx => by
    obtain ⟨hold,hslow⟩ := hq.subscriptions x hx
    rw [hslow]
    exact hs.counted x hold
  short := fun x hx => hs.short x (hq.subscriptions x hx).1
  written := fun w hw => hq.connections _ (hs.written w hw)
  fresh := fun x hx => hs.fresh x (hq.pending x hx)

theorem Quiet.trans {s s' s'' : Server σ} (h : Quiet s s') (h' : Quiet s' s'') : Quiet s s'' where
  subscriptions := fun x hx => by
    obtain ⟨hx',hslow'⟩ := h'.subscriptions x hx
    obtain ⟨hx,hslow⟩ := h.subscriptions x hx'
    exact ⟨hx,hslow'.trans hslow⟩
  pending := fun x hx => h.pending x (h'.pending x hx)
  connections := fun x hx => h'.connections x (h.connections x hx)

theorem alike_quiet {s s' : Server σ} (ha : Alike s s') (hslow : s'.slowClients = s.slowClients) :
    Quiet s s' where
  subscriptions := fun x hx => ⟨ha.subscriptions ▸ hx,by rw [hslow]⟩
  pending := fun x hx => ha.pendingSubscriptions ▸ hx
  connections := fun x hx => (ha.connections x).mpr hx

theorem removed_quiet {socket : σ} {s s' : Server σ} (hr : Removed socket s s') : Quiet s s' where
  subscriptions := fun x hx => by
    obtain ⟨hne,hold⟩ := (hr.subscriptions x).mp hx
    exact ⟨hold,(hr.slow x).trans (if_neg hne)⟩
  pending := fun x hx => ((hr.pending x).mp hx).2
  connections := fun x hx => hr.connections ▸ hx

theorem clearTimer_quiet (socket : σ) (s : Server σ) : Quiet s (clearTimer socket s) :=
  alike_quiet (clearTimer_alike socket s) (clearTimer_slowClients socket s)

theorem gone_quiet {s : Server σ} (h : Index s) (socket : σ) : Quiet s (socketGone socket s) :=
  (clearTimer_quiet socket s).trans
    (removed_quiet (removeClient_removed (clearTimer_index h socket) socket))

theorem timeout_quiet {s : Server σ} (h : Index s) (socket : σ) :
    Quiet s (handshakeTimeout socket s) := by
  unfold handshakeTimeout
  split
  · exact ⟨fun x hx => ⟨hx,rfl⟩,fun x hx => hx,fun x hx => hx⟩
  · simp only
    split
    · have hgone := gone_quiet h socket
      rw [removeClient_destroyed]
      exact ⟨hgone.subscriptions,hgone.pending,hgone.connections⟩
    · exact clearTimer_quiet socket s

theorem subscribe_sound {h : History σ V} {s' : Server σ} (hs : Sound h) {socket : σ}
    {topics : List String} (hindex : Index s') (hsub : Subscribed socket topics h.server s')
    (hlive : socket ∈ h.server.subscriptions.keys ∨ socket ∈ h.server.pendingSubscriptions.keys) :
    Sound ⟨s',h.writes⟩ := by
  have hclient : ∀ x ∈ s'.subscriptions.keys,
      (h.server.slowClients.get? x).getD 0 = streak h.writes x ∧
        streak h.writes x ≤ backpressureThreshold := by
    intro x hx
    by_cases hactive : x ∈ h.server.subscriptions.keys
    · exact ⟨hs.counted x hactive,hs.short x hactive⟩
    · obtain rfl := ((hsub.subscriptions x).mp hx).resolve_right hactive
      have hzero := streak_of_unwritten (hs.fresh x (hlive.resolve_left hactive))
      have hnone : h.server.slowClients.get? x = none := by
        by_contra hsome
        obtain ⟨n,hn⟩ := Option.ne_none_iff_exists'.mp hsome
        exact hactive (hs.index.slow x (mem_keys_of_get? hn))
      rw [hnone, hzero]
      exact ⟨rfl,Nat.zero_le _⟩
  refine ⟨hindex,fun x hx => ?_,fun x hx => (hclient x hx).2,
    fun w hw => (hsub.connections _).mpr (hs.written w hw),
    fun x hx => hs.fresh x ((hsub.pending x).mp hx).2⟩
  change (s'.slowClients.get? x).getD 0 = _
  rw [hsub.slowClients]
  exact (hclient x hx).1

theorem data_sound {D : Type*} (R : Doubles D) {h : History σ V} (hs : Sound h) {socket : σ}
    (hknown : socket ∈ h.server.connections.keys) (hlive : socket ∉ h.server.destroyed)
    (chunk : List UInt8) : Sound ⟨handleSubscriptionMessage R socket chunk h.server,h.writes⟩ := by
  have hindex := data_index R hs.index hknown hlive chunk
  have hserved := hs.index.served socket hknown hlive
  unfold handleSubscriptionMessage at hindex ⊢
  split at hindex
  · exact hs
  · rename_i c hc
    simp only at hindex ⊢
    split at hindex
    · exact quiet_sound hs (alike_quiet (setBuffer_alike ..) (setBuffer_slowClients ..)) hindex
    · rename_i items route _
      have hsub := subscribe_subscribed hs.index hc hserved (topicNames items)
        (parseRoutingRules R route)
      have hsubscribed := subscribe_sound hs (subscribed_index hs.index hserved hsub) hsub hserved
      have hquiet := alike_quiet (setBuffer_alike socket (linesOf c chunk).2 (subscribe socket c
        (topicNames items) (parseRoutingRules R route) h.server)) (setBuffer_slowClients ..)
      have hbuffered := quiet_sound hsubscribed hquiet hindex
      exact hbuffered

theorem connection_sound {h : History σ V} (hs : Sound h) {socket : σ}
    (hstarted : h.server.started = true) (hnew : socket ∉ h.server.connections.keys)
    (hlive : socket ∉ h.server.destroyed) :
    Sound ⟨handleClientConnection socket h.server,h.writes⟩ := by
  have hindex := connection_index hs.index hstarted hnew hlive
  unfold handleClientConnection at hindex ⊢
  split
  · rename_i hfull
    rw [if_pos hfull] at hindex
    exact ⟨hindex,hs.counted,hs.short,hs.written,hs.fresh⟩
  · rename_i hroom
    rw [if_neg hroom] at hindex
    refine ⟨hindex,hs.counted,hs.short,fun w hw => ?_,fun x hx w hw => ?_⟩
    · exact (OrderedMap.mem_set ..).mpr (Or.inr (hs.written w hw))
    · rcases (OrderedMap.mem_add ..).mp hx with rfl | hx
      · rintro rfl
        exact hnew (hs.written w hw)
      · exact hs.fresh x hx w hw

theorem stop_quiet (s : Server σ) : Quiet s (stop s) := by
  unfold stop
  split
  · exact ⟨fun x hx => ⟨hx,rfl⟩,fun x hx => hx,fun x hx => hx⟩
  · exact ⟨fun x hx => absurd hx List.not_mem_nil,fun x hx => absurd hx List.not_mem_nil,
      fun x hx => hx⟩

theorem step_sound {D : Type*} (R : Doubles D) (h : History σ V) (e : Event σ V)
    (he : Possible h e) (hs : Sound h) : Sound (step R h e) := by
  cases e with
  | start =>
    exact quiet_sound hs ⟨fun x hx => ⟨hx,rfl⟩,fun x hx => hx,fun x hx => hx⟩
      (start_index hs.index)
  | stop => exact quiet_sound hs (stop_quiet h.server) (stop_index hs.index)
  | connection socket => exact connection_sound hs he.1 he.2.1 he.2.2
  | data socket chunk => exact data_sound R hs he.1 he.2.1 chunk
  | timeout socket =>
    exact quiet_sound hs (timeout_quiet hs.index socket) (timeout_index hs.index socket)
  | error socket => exact quiet_sound hs (gone_quiet hs.index socket) (gone_index hs.index socket)
  | close socket => exact quiet_sound hs (gone_quiet hs.index socket) (gone_index hs.index socket)
  | sendData dataPoints topic answers => exact (sendData_delivers hs dataPoints topic answers).1

theorem run_sound {D : Type*} (R : Doubles D) (es : List (Event σ V))
    (h : Meets (step R) Possible es History.new) : Sound (run (step R) es History.new) := by
  refine run_invariant (step_sound R) es _ h ⟨new_index,?_,?_,?_,?_⟩
  · exact fun x hx => absurd hx List.not_mem_nil
  · exact fun x hx => absurd hx List.not_mem_nil
  · exact fun w hw => absurd hw List.not_mem_nil
  · exact fun x hx => absurd hx List.not_mem_nil

/-- After any run the collections are exact, and any call of `sendData` then
writes once to each client of the topic, to no other socket, and removes the
clients whose write throws or is the fourth in a row to meet a full buffer. -/
theorem server_exact {D : Type*} (R : Doubles D) (es : List (Event σ V))
    (h : Meets (step R) Possible es History.new) :
    Exact (run (step R) es History.new).server ∧
      ∀ (dataPoints : List (DeviceDataPoint V)) (topic : String) (answers : σ → Answer),
        Delivers (run (step R) es History.new) dataPoints topic answers
          (sendData dataPoints topic answers (run (step R) es History.new).server) := by
  have hs := run_sound R es h
  exact ⟨index_exact hs.index,fun dataPoints topic answers =>
    (sendData_delivers hs dataPoints topic answers).2⟩

def subscribeA : List UInt8 :=
  [123,34,115,117,98,115,99,114,105,98,101,34,58,91,34,97,34,93,125,10]

def oneClient : List (Event ℕ Unit) := [.start,.connection 0,.data 0 subscribeA]

def reading : DeviceDataPoint Unit := ⟨"pump","pressure",.good,()⟩

theorem one_client_served :
    (sendData [reading] "a" (fun _ => ⟨5,.flushed,6⟩)
        (run (step exactDoubles) oneClient History.new).server).writes = [⟨0,[reading],.flushed⟩] ∧
      Exact (run (step exactDoubles) oneClient History.new).server := by
  have hmeets : Meets (step exactDoubles) Possible oneClient History.new := by
    refine ⟨trivial,⟨rfl,by decide,by decide⟩,⟨by decide,by decide,fun c hc => ?_⟩,trivial⟩
    obtain rfl := Option.some.inj hc
    intro items route hread v hv
    have hlines : (linesOf ⟨⟨OrderedMap.empty,getDefaultRoutingRules,0⟩,false,[],true⟩
        subscribeA).1.findSome? subscribeMessage = some ([.str "a"],none) := by rfl
    obtain rfl := (Prod.mk.inj (Option.some.inj (hlines.symm.trans hread))).1
    exact ⟨"a",List.mem_singleton.mp hv⟩
  exact ⟨by rfl,(server_exact exactDoubles oneClient hmeets).1⟩

end Iotistica.SocketDelivery
