import Iotistica.AgentSubscriptions

/-!
# Counts of subscriptions

The count of a topic is the number of its live calls in every run. A caller
loses its subscription when another one's request is rejected after it joined
the count, or its handler when that handler is removed everywhere or with its
topic. Registering and unsubscribing take nothing from other callers.
-/

set_option autoImplicit false

namespace Iotistica.AgentSubscriptions
open Iotistica.GuardedRun Iotistica.KeyedTable

def Phase.live : Phase → Bool
  | .pending => true
  | .resolved => true
  | .waiting => false
  | .rejected _ => false
  | .cancelled => false

def liveOn (topic : String) (c : Call) : Bool := c.topic = topic && c.phase.live

def pendingAs (id : ℕ) (c : Call) : Bool := c.id = id && c.phase = .pending

def held (s : State) (topic : String) : ℕ :=
  s.calls.rows.countP (fun c => c.topic = topic && c.phase = .resolved)

def outstanding (s : State) : List Request := s.queue++s.answered.map Prod.fst++(s.offline++s.lost)

def Quiet (s : State) : Prop := s.connected = true ∧ outstanding s = []

structure Served (s : State) : Prop where
  counted : ∀ topic, s.subscribedTopics.get? topic =
    if held s topic = 0 then none else some (held s topic)
  subscribed : ∀ topic, 0 < held s topic → topic ∈ s.broker
  routed : ∀ c ∈ s.calls.rows, c.phase = .resolved → ∀ h ∈ c.handler, (c.topic,h) ∈ s.handlers

def settles (topic : String) (subscribed : Bool) : Request → Bool
  | .subscribe _ _ _ => subscribed
  | .unsubscribe t => if t = topic then false else subscribed
  | .resubscribe t => if t = topic then true else subscribed

/-- The broker has the topic once it has taken the requests that wait, even
if it rejects all new subscriptions. -/
def Secured (s : State) (topic : String) : Prop :=
  s.queue.foldl (settles topic) (topic ∈ s.broker) = true

/-- No other live call has the handler, and if others joined the topic the
broker has it anyway. -/
def RollbackSafe (s : State) (call : ℕ) (topic : String) (handler : Option ℕ) : Prop :=
  (∀ h ∈ handler, ∀ c ∈ s.calls.rows, c.id ≠ call → c.phase.live = true → c.handler ≠ some h) ∧
    (s.connected = true →
      (∃ c ∈ s.calls.rows, c.id ≠ call ∧ liveOn topic c = true) → Secured s topic)

def PatternSafe (s : State) (topic : String) : Prop :=
  ∀ c ∈ s.calls.rows, liveOn topic c = true → c.handler = none

def CallbackSafe (s : State) (a : Answer) : Request → Prop
  | .subscribe call topic handler =>
      subscribeError topic a ≠ none → RollbackSafe s call topic handler
  | .unsubscribe topic => a.error = none → PatternSafe s topic
  | .resubscribe _ => True

def Considerate (s : State) : Event → Prop
  | .deliver r a => (r,a) ∈ s.answered → CallbackSafe s a r
  | .fail r message => r ∈ s.lost → CallbackSafe s ⟨some message,none⟩ r
  | _ => True

instance (s : State) (topic : String) : Decidable (Secured s topic) :=
  inferInstanceAs (Decidable (_ = true))

instance (s : State) (call : ℕ) (topic : String) (handler : Option ℕ) :
    Decidable (RollbackSafe s call topic handler) :=
  inferInstanceAs (Decidable (_ ∧ _))

instance (s : State) (topic : String) : Decidable (PatternSafe s topic) :=
  inferInstanceAs (Decidable (∀ c ∈ s.calls.rows, liveOn topic c = true → c.handler = none))

instance (s : State) (a : Answer) : (r : Request) → Decidable (CallbackSafe s a r)
  | .subscribe call topic handler => inferInstanceAs
      (Decidable (subscribeError topic a ≠ none → RollbackSafe s call topic handler))
  | .unsubscribe topic => inferInstanceAs (Decidable (a.error = none → PatternSafe s topic))
  | .resubscribe _ => .isTrue trivial

instance (s : State) : (e : Event) → Decidable (Considerate s e)
  | .deliver r a => inferInstanceAs (Decidable ((r,a) ∈ s.answered → CallbackSafe s a r))
  | .fail r message =>
    inferInstanceAs (Decidable (r ∈ s.lost → CallbackSafe s ⟨some message,none⟩ r))
  | .subscribe _ _ => .isTrue trivial
  | .reached _ => .isTrue trivial
  | .unreachable _ _ => .isTrue trivial
  | .unsubscribe _ => .isTrue trivial
  | .take _ => .isTrue trivial
  | .drop => .isTrue trivial
  | .attempt => .isTrue trivial
  | .connect _ => .isTrue trivial

def asks (id : ℕ) : Request → Bool
  | .subscribe call _ _ => call = id
  | .unsubscribe _ => false
  | .resubscribe _ => false

def liveCount (s : State) (topic : String) : ℕ := s.calls.rows.countP (liveOn topic)

structure Counted (s : State) : Prop where
  topics : ∀ topic, s.subscribedTopics.get? topic =
    if liveCount s topic = 0 then none else some (liveCount s topic)
  asked : ∀ id, (outstanding s).countP (asks id) = s.calls.rows.countP (pendingAs id)
  named : ∀ id topic handler, .subscribe id topic handler ∈ outstanding s →
    ∀ c ∈ s.calls.rows, c.id = id → c.topic = topic ∧ c.handler = handler

structure Routed (s : State) : Prop where
  routed : ∀ c ∈ s.calls.rows, c.phase.live = true → ∀ h ∈ c.handler, (c.topic,h) ∈ s.handlers

structure Kept (s : State) : Prop where
  offline : s.connected = false → s.queue = [] ∧ s.answered = []
  online : s.connected = true → s.offline = []
  secured : s.connected = true → ∀ c ∈ s.calls.rows, c.phase = .resolved →
    Secured s c.topic ∨ ∃ d ∈ s.calls.rows, d.topic = c.topic ∧ d.phase = .pending
  granted : ∀ id topic handler a, (.subscribe id topic handler,a) ∈ s.answered →
    subscribeError topic a = none → Secured s topic
  ordered : (s.queue++s.offline).Pairwise (fun r q => ∀ id topic handler,
    r = .subscribe id topic handler → q ≠ .unsubscribe topic)

structure Inv (s : State) : Prop where
  counted : Counted s
  routed : Routed s
  kept : Kept s

section
variable {s : State} {c : Call} {phase : Phase}

theorem mem_setPhase (hc : c ∈ s.calls.rows) {d : Call} :
    d ∈ (setPhase s c.id phase).calls.rows ↔
      d = { c with phase := phase } ∨ (d ∈ s.calls.rows ∧ d.id ≠ c.id) :=
  s.calls.mem_update_key hc (fun c => { c with phase := phase }) (fun _ => rfl) d

theorem countP_setPhase (phase : Phase) (hc : c ∈ s.calls.rows) (p : Call → Bool) :
    (setPhase s c.id phase).calls.rows.countP p+(if p c then 1 else 0) =
      s.calls.rows.countP p+(if p { c with phase := phase } then 1 else 0) :=
  s.calls.countP_update_key hc (fun c => { c with phase := phase }) (fun _ => rfl) p

theorem countP_send (r : Request) (p : Request → Bool) :
    (outstanding (send s r)).countP p = (outstanding s).countP p+(if p r then 1 else 0) := by
  unfold send
  split <;> simp only [outstanding, List.countP_append, List.countP_singleton] <;> omega

theorem mem_send {r q : Request} :
    q ∈ outstanding (send s r) ↔ q ∈ outstanding s ∨ q = r := by
  unfold send
  split <;> simp only [outstanding, List.mem_append, List.mem_singleton] <;> grind

theorem send_frame (r : Request) : (send s r).connected = s.connected ∧
    (send s r).subscribedTopics = s.subscribedTopics ∧ (send s r).handlers = s.handlers ∧
      (send s r).calls = s.calls ∧ (send s r).answered = s.answered ∧
        (send s r).broker = s.broker := by
  unfold send
  split
  · exact ⟨rfl,rfl,rfl,rfl,rfl,rfl⟩
  · exact ⟨rfl,rfl,rfl,rfl,rfl,rfl⟩

theorem online_send (r : Request) (h : s.connected = true → s.offline = [])
    (hon : (send s r).connected = true) : (send s r).offline = [] := by
  have hs : s.connected = true := send_frame r |>.1 ▸ hon
  unfold send
  rw [if_pos hs]
  exact h hs

theorem behind_send (r : Request) (h : s.connected = true → s.offline = []) :
    (send s r).queue++(send s r).offline = s.queue++s.offline++[r] := by
  cases hon : s.connected with
  | true => simp [send, hon, h hon]
  | false => simp [send, hon]

theorem settles_iff {topic : String} {subscribed : Bool} {r : Request} :
    settles topic subscribed r = true ↔
      r = .resubscribe topic ∨ (subscribed = true ∧ r ≠ .unsubscribe topic) := by
  cases r with
  | subscribe call t handler => simp [settles]
  | unsubscribe t => by_cases ht : t = topic <;> simp [settles, ht]
  | resubscribe t => by_cases ht : t = topic <;> simp [settles, ht]

theorem secured_send (hon : s.connected = true) (r : Request) (topic : String) :
    Secured (send s r) topic ↔ r = .resubscribe topic ∨ (Secured s topic ∧ r ≠ .unsubscribe topic) := by
  unfold send Secured
  rw [if_pos hon, List.foldl_append]
  exact settles_iff

theorem foldl_settles_mono (topic : String) (requests : List Request) {b b' : Bool}
    (h : b = true → b' = true) (hb : requests.foldl (settles topic) b = true) :
    requests.foldl (settles topic) b' = true := by
  induction requests generalizing b b' with
  | nil => exact h hb
  | cons r requests ih =>
    refine ih (fun hset => ?_) hb
    rw [settles_iff] at hset ⊢
    exact hset.imp id (fun hold => ⟨h hold.1,hold.2⟩)

theorem count_eq (h : Counted s) (topic : String) :
    (s.subscribedTopics.get? topic).getD 0 = liveCount s topic := by
  rw [h.topics topic]
  split
  · next hzero => exact hzero.symm
  · rfl

theorem live_iff : phase.live = true ↔ phase = .pending ∨ phase = .resolved := by
  cases phase <;> simp [Phase.live]

theorem counted_send {r : Request} (htopics : ∀ topic, s.subscribedTopics.get? topic =
      if liveCount s topic = 0 then none else some (liveCount s topic))
    (hasked : ∀ id, (outstanding s).countP (asks id)+(if asks id r then 1 else 0) =
      s.calls.rows.countP (pendingAs id))
    (hnamed : ∀ id topic handler,
      (.subscribe id topic handler ∈ outstanding s ∨ .subscribe id topic handler = r) →
        ∀ c ∈ s.calls.rows, c.id = id → c.topic = topic ∧ c.handler = handler) :
    Counted (send s r) := by
  obtain ⟨-,hsame,-,hcalls,-,-⟩ := @send_frame s r
  have hlive : ∀ topic, liveCount (send s r) topic = liveCount s topic := by
    intro topic
    unfold liveCount
    rw [hcalls]
  refine ⟨fun topic => ?_,fun id => ?_,fun id topic handler hr c hc => ?_⟩
  · rw [hsame, hlive]
    exact htopics topic
  · rw [countP_send, hcalls]
    exact hasked id
  · rw [hcalls] at hc
    exact hnamed id topic handler (mem_send.mp hr) c hc

theorem register_eq (h : Counted s) : register s c =
    if 0 < liveCount s c.topic then
      setPhase { s with
        handlers := withHandler s.handlers c.topic c.handler
        subscribedTopics := s.subscribedTopics.set c.topic (liveCount s c.topic+1) } c.id .resolved
    else
      send (setPhase { s with
        handlers := withHandler s.handlers c.topic c.handler
        subscribedTopics := s.subscribedTopics.set c.topic (liveCount s c.topic+1) } c.id .pending)
          (.subscribe c.id c.topic c.handler) := by
  unfold register
  rw [count_eq h]

theorem topics_set (h : Counted s) (hc : c ∈ s.calls.rows) (hdead : c.phase.live = false)
    (hlive : phase.live = true) (topic : String) :
    (s.subscribedTopics.set c.topic (liveCount s c.topic+1)).get? topic =
      if liveCount (setPhase s c.id phase) topic = 0 then none
      else some (liveCount (setPhase s c.id phase) topic) := by
  have hcount := countP_setPhase phase hc (liveOn topic)
  rw [OrderedMap.get?_set]
  by_cases ht : topic = c.topic
  · subst ht
    have hone : liveCount (setPhase s c.id phase) c.topic = liveCount s c.topic+1 := by
      simpa [liveOn, hdead, hlive, liveCount] using hcount
    rw [if_pos rfl, hone, if_neg (Nat.succ_ne_zero _)]
  · have hsame : liveCount (setPhase s c.id phase) topic = liveCount s topic := by
      simpa [liveOn, Ne.symm ht, liveCount] using hcount
    rw [if_neg ht, hsame]
    exact h.topics topic

theorem counted_register (h : Counted s) (hc : c ∈ s.calls.rows) (hwait : c.phase = .waiting) :
    Counted (register s c) := by
  have hdead : c.phase.live = false := by rw [hwait]; rfl
  have hpending : ∀ (ph : Phase) id, (setPhase s c.id ph).calls.rows.countP (pendingAs id) =
      s.calls.rows.countP (pendingAs id)+(if c.id = id ∧ ph = .pending then 1 else 0) := by
    intro ph id
    have hcount := countP_setPhase ph hc (pendingAs id)
    simpa [pendingAs, hwait] using hcount
  have hnamed : ∀ (ph : Phase) id topic handler, .subscribe id topic handler ∈ outstanding s →
      ∀ d ∈ (setPhase s c.id ph).calls.rows, d.id = id → d.topic = topic ∧ d.handler = handler := by
    intro ph id topic handler hr d hd hid
    rcases (mem_setPhase hc).mp hd with rfl | ⟨hd,-⟩
    · exact h.named id topic handler hr c hc hid
    · exact h.named id topic handler hr d hd hid
  rw [register_eq h]
  split
  · refine ⟨topics_set h hc hdead rfl,fun id => ?_,hnamed .resolved⟩
    refine (h.asked id).trans ?_
    have hsame := hpending .resolved id
    simp only [reduceCtorEq, and_false, if_false, Nat.add_zero] at hsame
    exact hsame.symm
  · refine counted_send (topics_set h hc hdead rfl) (fun id => ?_)
      (fun id topic handler hr d hd hid => ?_)
    · refine Eq.trans ?_ (hpending .pending id).symm
      simp only [asks, decide_eq_true_eq, and_true]
      exact congrArg (· + _) (h.asked id)
    · rcases hr with hr | heq
      · exact hnamed .pending id topic handler hr d hd hid
      · cases heq
        rcases (mem_setPhase hc).mp hd with rfl | ⟨-,hne⟩
        · exact ⟨rfl,rfl⟩
        · exact absurd hid hne

theorem routed_register (h : Routed s) (hcount : Counted s) (hc : c ∈ s.calls.rows) :
    Routed (register s c) := by
  have hgrown : ∀ p ∈ s.handlers, p ∈ withHandler s.handlers c.topic c.handler := by
    intro p hp
    unfold withHandler
    split
    · exact List.mem_append_left _ hp
    · exact hp
  have hnew : ∀ k ∈ c.handler, (c.topic,k) ∈ withHandler s.handlers c.topic c.handler := by
    intro k hk
    rw [Option.mem_def.mp hk]
    exact List.mem_append_right _ (List.mem_singleton.mpr rfl)
  have hrows : ∀ ph : Phase, ∀ d ∈ (setPhase s c.id ph).calls.rows, d.phase.live = true →
      ∀ k ∈ d.handler, (d.topic,k) ∈ withHandler s.handlers c.topic c.handler := by
    intro ph d hd hlive k hk
    rcases (mem_setPhase hc).mp hd with rfl | ⟨hd,-⟩
    · exact hnew k hk
    · exact hgrown _ (h.routed d hd hlive k hk)
  rw [register_eq hcount]
  split
  · exact ⟨hrows .resolved⟩
  · refine ⟨fun d hd => ?_⟩
    obtain ⟨-,-,hhandlers,hcalls,-,-⟩ := @send_frame (setPhase { s with
      handlers := withHandler s.handlers c.topic c.handler
      subscribedTopics := s.subscribedTopics.set c.topic (liveCount s c.topic+1) } c.id .pending)
        (.subscribe c.id c.topic c.handler)
    rw [hcalls] at hd
    rw [hhandlers]
    exact hrows .pending d hd

theorem secured_send_subscribe {call : ℕ} {t : String} {handler : Option ℕ} (topic : String) :
    Secured (send s (.subscribe call t handler)) topic ↔ Secured s topic := by
  cases hon : s.connected with
  | true => simp [secured_send hon]
  | false =>
    unfold send Secured
    rw [hon]
    exact Iff.rfl

theorem Secured.send_unsubscribe {topic t : String} (h : Secured s topic) (hne : topic ≠ t) :
    Secured (send s (.unsubscribe t)) topic := by
  cases hon : s.connected with
  | true =>
    refine (secured_send hon (.unsubscribe t) topic).mpr (Or.inr ⟨h,?_⟩)
    simp only [ne_eq, Request.unsubscribe.injEq]
    exact fun he => hne he.symm
  | false =>
    unfold send
    rw [hon]
    exact h

theorem exists_live (h : 0 < liveCount s c.topic) :
    ∃ d ∈ s.calls.rows, d.topic = c.topic ∧ (d.phase = .pending ∨ d.phase = .resolved) := by
  obtain ⟨d,hd,hlive⟩ := List.countP_pos_iff.mp h
  simp only [liveOn, Bool.and_eq_true, decide_eq_true_eq] at hlive
  exact ⟨d,hd,hlive.1,live_iff.mp hlive.2⟩

theorem kept_register (h : Kept s) (hcount : Counted s) (hc : c ∈ s.calls.rows)
    (hwait : c.phase = .waiting) : Kept (register s c) := by
  -- the calls with a part in the count are others
  have hother : ∀ (ph : Phase) (d : Call), d ∈ s.calls.rows → d.phase ≠ .waiting →
      d ∈ (setPhase s c.id ph).calls.rows := by
    intro ph d hd hne
    refine (mem_setPhase hc).mpr (Or.inr ⟨hd,fun he => hne ?_⟩)
    rw [s.calls.key_unique hd hc he]
    exact hwait
  have hkept : ∀ (ph : Phase) (d : Call), d ∈ s.calls.rows → d.phase = .resolved →
      s.connected = true → Secured s d.topic ∨
        ∃ e ∈ (setPhase s c.id ph).calls.rows, e.topic = d.topic ∧ e.phase = .pending := by
    intro ph d hd hresolved hon
    refine (h.secured hon d hd hresolved).imp id ?_
    rintro ⟨e,he,htopic,hpending⟩
    exact ⟨e,hother ph e he (by rw [hpending]; simp),htopic,hpending⟩
  rw [register_eq hcount]
  split
  · next hpos =>
    refine ⟨h.offline,h.online,fun hon d hd hresolved => ?_,h.granted,h.ordered⟩
    rcases (mem_setPhase hc).mp hd with rfl | ⟨hd,-⟩
    · obtain ⟨e,he,htopic,hpending | hres⟩ := exists_live hpos
      · exact Or.inr ⟨e,hother .resolved e he (by rw [hpending]; simp),htopic,hpending⟩
      · have hsec := hkept .resolved e he hres hon
        rw [htopic] at hsec
        exact hsec
    · exact hkept .resolved d hd hresolved hon
  · obtain ⟨hconnected,-,-,hcalls,hanswered,-⟩ := @send_frame (setPhase { s with
      handlers := withHandler s.handlers c.topic c.handler
      subscribedTopics := s.subscribedTopics.set c.topic (liveCount s c.topic+1) } c.id .pending)
        (.subscribe c.id c.topic c.handler)
    refine ⟨fun hoff => ?_,online_send _ h.online,fun hon d hd hresolved => ?_,
      fun id topic handler a hr hok => ?_,?_⟩
    · rw [hconnected] at hoff
      obtain ⟨hqueue,hans⟩ := h.offline hoff
      refine ⟨?_,hanswered.trans hans⟩
      unfold send
      rw [show (setPhase _ _ _).connected = false from hoff]
      exact hqueue
    · rw [hconnected] at hon
      rw [hcalls] at hd ⊢
      rw [secured_send_subscribe]
      rcases (mem_setPhase hc).mp hd with rfl | ⟨hd,-⟩
      · cases hresolved
      · exact hkept .pending d hd hresolved hon
    · rw [hanswered] at hr
      rw [secured_send_subscribe]
      exact h.granted id topic handler a hr hok
    · rw [behind_send]
      · refine List.pairwise_append.mpr ⟨h.ordered,List.pairwise_singleton _ _,
          fun r _ q hq id topic handler _ => ?_⟩
        obtain rfl := List.mem_singleton.mp hq
        simp
      · exact h.online

theorem inv_register (h : Inv s) (hc : c ∈ s.calls.rows) (hwait : c.phase = .waiting) :
    Inv (register s c) :=
  ⟨counted_register h.counted hc hwait,routed_register h.routed h.counted hc,
    kept_register h.kept h.counted hc hwait⟩

theorem inv_insert (h : Inv s) (topic : String) (handler : Option ℕ) :
    Inv { s with
      calls := s.calls.insert (fun id => ⟨id,topic,handler,.waiting⟩) (fun _ => rfl) } := by
  have hmem : ∀ d, d ∈ (s.calls.insert (fun id => (⟨id,topic,handler,.waiting⟩ : Call))
      (fun _ => rfl)).rows ↔ d ∈ s.calls.rows ∨ d = ⟨s.calls.next,topic,handler,.waiting⟩ :=
    Table.mem_insert _ _ (fun _ => rfl)
  have hcount : ∀ p : Call → Bool, p ⟨s.calls.next,topic,handler,.waiting⟩ = false →
      (s.calls.insert (fun id => (⟨id,topic,handler,.waiting⟩ : Call)) (fun _ => rfl)).rows.countP p =
        s.calls.rows.countP p := by
    intro p hp
    rw [Table.countP_insert, hp]
    rfl
  refine ⟨⟨fun t => ?_,fun id => ?_,fun id t k hr d hd hid => ?_⟩,⟨fun d hd hlive k hk => ?_⟩,
    ⟨h.kept.offline,h.kept.online,fun hon d hd hresolved => ?_,h.kept.granted,h.kept.ordered⟩⟩
  · have hlive : liveCount { s with
        calls := s.calls.insert (fun id => ⟨id,topic,handler,.waiting⟩) (fun _ => rfl) } t =
          liveCount s t := hcount (liveOn t) (by simp [liveOn, Phase.live])
    rw [hlive]
    exact h.counted.topics t
  · exact (h.counted.asked id).trans (hcount (pendingAs id) (by simp [pendingAs])).symm
  · rcases (hmem d).mp hd with hd | rfl
    · exact h.counted.named id t k hr d hd hid
    · -- nobody has asked for a call that is new
      have hpos : 0 < (outstanding s).countP (asks id) :=
        List.countP_pos_iff.mpr ⟨_,hr,by simp [asks]⟩
      rw [h.counted.asked id] at hpos
      obtain ⟨e,he,hpending⟩ := List.countP_pos_iff.mp hpos
      simp only [pendingAs, Bool.and_eq_true, decide_eq_true_eq] at hpending
      exact absurd (hpending.1.trans hid.symm) (s.calls.below e he).ne
  · rcases (hmem d).mp hd with hd | rfl
    · exact h.routed.routed d hd hlive k hk
    · cases hlive
  · rcases (hmem d).mp hd with hd | rfl
    · refine (h.kept.secured hon d hd hresolved).imp id ?_
      rintro ⟨e,he,hrest⟩
      exact ⟨e,(hmem e).mpr (Or.inl he),hrest⟩
    · cases hresolved

theorem inv_subscribe (h : Inv s) (topic : String) (handler : Option ℕ) :
    Inv (subscribe s topic handler) := by
  unfold subscribe
  dsimp only
  split
  · exact inv_register (inv_insert h topic handler)
      ((Table.mem_insert _ _ (fun _ => rfl) _).mpr (Or.inr rfl)) rfl
  · exact inv_insert h topic handler

theorem inv_withCall (h : Inv s) {id : ℕ} {f : Call → State}
    (hf : ∀ c ∈ s.calls.rows, c.phase = phase → Inv (f c)) : Inv (withCall s id phase f) := by
  unfold withCall
  cases hfind : s.calls.rows.find? (fun c => c.id = id) with
  | none => exact h
  | some c =>
    dsimp only
    split
    · next hphase => exact hf c (List.mem_of_find?_eq_some hfind) hphase
    · exact h

theorem topics_lower (phase : Phase) (h : Counted s) (hc : c ∈ s.calls.rows)
    (hlive : c.phase.live = true) (hdead : phase.live = false) (topic : String) :
    (if liveCount s c.topic ≤ 1 then s.subscribedTopics.delete c.topic
      else s.subscribedTopics.set c.topic (liveCount s c.topic-1)).get? topic =
        if liveCount (setPhase s c.id phase) topic = 0 then none
        else some (liveCount (setPhase s c.id phase) topic) := by
  have hcount := countP_setPhase phase hc (liveOn topic)
  by_cases ht : topic = c.topic
  · subst ht
    have hone : liveCount (setPhase s c.id phase) c.topic+1 = liveCount s c.topic := by
      simpa [liveOn, hdead, hlive, liveCount] using hcount
    split
    · rw [OrderedMap.get?_delete, if_pos rfl, if_pos (by omega)]
    · rw [OrderedMap.get?_set, if_pos rfl, if_neg (by omega)]
      congr 1
      omega
  · have hsame : liveCount (setPhase s c.id phase) topic = liveCount s topic := by
      simpa [liveOn, Ne.symm ht, liveCount] using hcount
    rw [hsame, ← h.topics topic]
    split
    · rw [OrderedMap.get?_delete, if_neg ht]
    · rw [OrderedMap.get?_set, if_neg ht]

theorem liveCount_pos (hc : c ∈ s.calls.rows) (hlive : c.phase.live = true) :
    0 < liveCount s c.topic :=
  List.countP_pos_iff.mpr ⟨c,hc,by simp [liveOn, hlive]⟩

theorem two_le_liveCount {d : Call} (hc : c ∈ s.calls.rows) (hlive : c.phase.live = true)
    (hd : d ∈ s.calls.rows) (hne : d.id ≠ c.id) (hd' : liveOn c.topic d = true) :
    2 ≤ liveCount s c.topic := by
  have hcount := countP_setPhase .cancelled hc (liveOn c.topic)
  have hrest : 0 < (setPhase s c.id .cancelled).calls.rows.countP (liveOn c.topic) :=
    List.countP_pos_iff.mpr ⟨d,(mem_setPhase hc).mpr (Or.inr ⟨hd,hne⟩),hd'⟩
  have hone : liveOn c.topic c = true := by simp [liveOn, hlive]
  have hzero : liveOn c.topic { c with phase := .cancelled } = false := by
    simp [liveOn, Phase.live]
  rw [hone, hzero, if_pos rfl, if_neg Bool.false_ne_true] at hcount
  unfold liveCount
  omega

theorem routed_setPhase (phase : Phase) (h : Routed s) (hc : c ∈ s.calls.rows)
    (hlive : phase.live = true → c.phase.live = true) : Routed (setPhase s c.id phase) := by
  refine ⟨fun d hd hd' k hk => ?_⟩
  rcases (mem_setPhase hc).mp hd with rfl | ⟨hd,-⟩
  · exact h.routed c hc (hlive hd') k hk
  · exact h.routed d hd hd' k hk

theorem named_setPhase (h : Counted s) (hc : c ∈ s.calls.rows) {id : ℕ} {topic : String}
    {handler : Option ℕ} (hr : .subscribe id topic handler ∈ outstanding s) :
    ∀ d ∈ (setPhase s c.id phase).calls.rows, d.id = id → d.topic = topic ∧ d.handler = handler := by
  intro d hd hid
  rcases (mem_setPhase hc).mp hd with rfl | ⟨hd,-⟩
  · exact h.named id topic handler hr c hc hid
  · exact h.named id topic handler hr d hd hid

theorem pending_setPhase (phase : Phase) (hc : c ∈ s.calls.rows) (hbefore : c.phase ≠ .pending)
    (hafter : phase ≠ .pending) (id : ℕ) :
    (setPhase s c.id phase).calls.rows.countP (pendingAs id) =
      s.calls.rows.countP (pendingAs id) := by
  have hcount := countP_setPhase phase hc (pendingAs id)
  simpa [pendingAs, hbefore, hafter] using hcount

theorem secured_setPhase (h : Kept s) (hc : c ∈ s.calls.rows) (hbefore : c.phase ≠ .pending)
    (hafter : phase ≠ .resolved) (hon : s.connected = true) {d : Call}
    (hd : d ∈ (setPhase s c.id phase).calls.rows) (hresolved : d.phase = .resolved) :
    Secured s d.topic ∨
      ∃ e ∈ (setPhase s c.id phase).calls.rows, e.topic = d.topic ∧ e.phase = .pending := by
  rcases (mem_setPhase hc).mp hd with rfl | ⟨hd,-⟩
  · exact absurd hresolved hafter
  · refine (h.secured hon d hd hresolved).imp id ?_
    rintro ⟨e,he,htopic,hpending⟩
    refine ⟨e,(mem_setPhase hc).mpr (Or.inr ⟨he,fun hid => hbefore ?_⟩),htopic,hpending⟩
    rw [← s.calls.key_unique he hc hid]
    exact hpending

theorem inv_unreachable (h : Inv s) (hc : c ∈ s.calls.rows) (hwait : c.phase = .waiting)
    (message : String) : Inv (setPhase s c.id (.rejected message)) := by
  have hdead : c.phase.live = false := by rw [hwait]; rfl
  refine ⟨⟨fun topic => ?_,fun id => ?_,fun id topic handler hr => named_setPhase h.counted hc hr⟩,
    routed_setPhase _ h.routed hc (fun hf => absurd hf Bool.false_ne_true),
    ⟨h.kept.offline,h.kept.online,
      fun hon d hd => secured_setPhase h.kept hc (by simp [hwait]) (by simp) hon hd,
      h.kept.granted,h.kept.ordered⟩⟩
  · have hcount := countP_setPhase (.rejected message) hc (liveOn topic)
    have hbefore : liveOn topic c = false := by simp [liveOn, hdead]
    have hafter : liveOn topic { c with phase := .rejected message } = false := by
      simp [liveOn, Phase.live]
    rw [hbefore, hafter] at hcount
    have hsame : liveCount (setPhase s c.id (.rejected message)) topic = liveCount s topic := hcount
    rw [hsame]
    exact h.counted.topics topic
  · exact (h.counted.asked id).trans
      (pending_setPhase _ hc (by simp [hwait]) (by simp) id).symm

theorem unsubscribe_eq (h : Counted s) :
    unsubscribe (setPhase s c.id .cancelled) c.topic =
      if 1 < liveCount s c.topic then
        { setPhase s c.id .cancelled with
          subscribedTopics := s.subscribedTopics.set c.topic (liveCount s c.topic-1) }
      else
        send { setPhase s c.id .cancelled with
          subscribedTopics := s.subscribedTopics.delete c.topic } (.unsubscribe c.topic) := by
  unfold unsubscribe
  rw [show (setPhase s c.id .cancelled).subscribedTopics = s.subscribedTopics from rfl, count_eq h]

/-- No request for a new subscription of the topic is on its way when its
last call is cancelled. -/
theorem not_asked (h : Counted s) (hc : c ∈ s.calls.rows) (hresolved : c.phase = .resolved)
    (hlast : ¬1 < liveCount s c.topic) (id : ℕ) (handler : Option ℕ) :
    .subscribe id c.topic handler ∉ outstanding s := by
  intro hr
  have hpos : 0 < (outstanding s).countP (asks id) :=
    List.countP_pos_iff.mpr ⟨_,hr,by simp [asks]⟩
  rw [h.asked id] at hpos
  obtain ⟨d,hd,hpending⟩ := List.countP_pos_iff.mp hpos
  simp only [pendingAs, Bool.and_eq_true, decide_eq_true_eq] at hpending
  have htopic := (h.named id c.topic handler hr d hd hpending.1).1
  refine hlast (two_le_liveCount hc (by rw [hresolved]; rfl) hd (fun he => ?_)
    (by simp [liveOn, htopic, hpending.2, Phase.live]))
  rw [s.calls.key_unique hd hc he, hresolved] at hpending
  cases hpending.2

theorem inv_unsubscribe (h : Inv s) (hc : c ∈ s.calls.rows) (hresolved : c.phase = .resolved) :
    Inv (unsubscribe (setPhase s c.id .cancelled) c.topic) := by
  have hlive : c.phase.live = true := by rw [hresolved]; rfl
  have hlower := topics_lower .cancelled h.counted hc hlive rfl
  have hpending := pending_setPhase .cancelled hc (by simp [hresolved]) (by simp)
  have hrouted := routed_setPhase .cancelled h.routed hc
    (fun hf => absurd hf Bool.false_ne_true)
  have hkept := fun hon d hd => @secured_setPhase s c .cancelled h.kept hc (by simp [hresolved])
    (by simp) hon d hd
  rw [unsubscribe_eq h.counted]
  split
  · next hmore =>
    rw [if_neg (Nat.not_le.mpr hmore)] at hlower
    exact ⟨⟨hlower,fun id => (h.counted.asked id).trans (hpending id).symm,
      fun id topic handler hr => named_setPhase h.counted hc hr⟩,⟨hrouted.routed⟩,
      ⟨h.kept.offline,h.kept.online,hkept,h.kept.granted,h.kept.ordered⟩⟩
  · next hlast =>
    rw [if_pos (Nat.le_of_not_lt hlast)] at hlower
    obtain ⟨hconnected,-,hhandlers,hcalls,hanswered,-⟩ := @send_frame
      { setPhase s c.id .cancelled with subscribedTopics := s.subscribedTopics.delete c.topic }
      (.unsubscribe c.topic)
    have hsecured : ∀ topic, topic ≠ c.topic → Secured s topic → Secured (send
        { setPhase s c.id .cancelled with subscribedTopics := s.subscribedTopics.delete c.topic }
        (.unsubscribe c.topic)) topic :=
      fun topic hne hsec => Secured.send_unsubscribe (s := { setPhase s c.id .cancelled with
        subscribedTopics := s.subscribedTopics.delete c.topic }) hsec hne
    refine ⟨counted_send hlower (fun id => ?_) (fun id topic handler hr => ?_),⟨fun d hd => ?_⟩,
      ⟨fun hoff => ?_,online_send _ h.kept.online,fun hon d hd hres => ?_,
        fun id topic handler a hr hok => ?_,?_⟩⟩
    · exact (h.counted.asked id).trans (hpending id).symm
    · rcases hr with hr | heq
      · exact named_setPhase h.counted hc hr
      · cases heq
    · rw [hcalls] at hd
      rw [hhandlers]
      exact hrouted.routed d hd
    · rw [hconnected] at hoff
      obtain ⟨hqueue,hans⟩ := h.kept.offline hoff
      refine ⟨?_,hanswered.trans hans⟩
      unfold send
      rw [show (setPhase s c.id .cancelled).connected = false from hoff]
      exact hqueue
    · rw [hconnected] at hon
      rw [hcalls] at hd ⊢
      refine (hkept hon d hd hres).imp (hsecured d.topic (fun he => ?_)) id
      rcases (mem_setPhase hc).mp hd with rfl | ⟨hd,hid⟩
      · cases hres
      · exact hlast (two_le_liveCount hc hlive hd hid (by simp [liveOn, he, hres, Phase.live]))
    · rw [hanswered] at hr
      refine hsecured topic (fun he => ?_) (h.kept.granted id topic handler a hr hok)
      subst he
      refine not_asked h.counted hc hresolved hlast id handler ?_
      exact List.mem_append_left _ (List.mem_append_right _ (List.mem_map.mpr ⟨_,hr,rfl⟩))
    · rw [behind_send]
      · refine List.pairwise_append.mpr ⟨h.kept.ordered,List.pairwise_singleton _ _,
          fun r hr q hq id topic handler heq => ?_⟩
        obtain rfl := List.mem_singleton.mp hq
        simp only [ne_eq, Request.unsubscribe.injEq]
        rintro rfl
        rw [heq] at hr
        refine not_asked h.counted hc hresolved hlast id handler ?_
        rcases List.mem_append.mp hr with hr | hr
        · exact List.mem_append_left _ (List.mem_append_left _ hr)
        · exact List.mem_append_right _ (List.mem_append_left _ hr)
      · exact h.kept.online

end

end Iotistica.AgentSubscriptions
