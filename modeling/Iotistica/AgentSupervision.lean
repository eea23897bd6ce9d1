import Iotistica.AgentConnection

/-!
# Supervision of an agent's connection

While the client is not connected something always leads on: a timer, an
attempt, a close that is still to be emitted or a continuation. The timer
however leaves a client alone that it believes to be connected, and it does
not know that the agent has disconnected.
-/

set_option autoImplicit false

namespace Iotistica.AgentConnection
open Iotistica.GuardedRun

def Ready (s : State) : Task → Prop
  | .caught a _ => s.outcome a = some false
  | .joined a _ => s.outcome a ≠ none

def WayForward (s : State) : Prop :=
  s.reconnectTimer ≠ none ∨
  (∃ c ∈ s.client, s.outcome c.attempt = none ∧ c.attempt ∈ s.timeouts) ∨
  (∃ c ∈ s.client, c.closeOwed = true) ∨
  (∃ t ∈ s.tasks, Ready s t) ∨
  s.suspended ≠ []

structure Supervised (s : State) : Prop where
  forward : s.connected = false → urlKnown s = true → s.disconnectCalled = false → WayForward s
  scheduled : s.stuck = true → s.reconnectTimer ≠ none
  restarted : ∀ restarted ∈ s.restarts, restarted = true
  quiet : ∀ stopped ∈ s.starts, stopped = false

/-- The timer of a stuck client meets neither a client that counts as
connected nor an attempt in progress, and after a disconnect it and a
suspended call find one of them. -/
def Restarting (s : State) : Event → Prop
  | .fire => s.reconnectTimer ≠ none →
      (s.stuck = true → s.connected = false ∧ s.connectionPromise = none) ∧
        (s.stopped = true → s.connected = true ∨ s.connectionPromise ≠ none)
  | .resume brokerUrl => brokerUrl ∈ s.suspended → s.stopped = true →
      isConnected s = true ∨ s.connectionPromise ≠ none
  | _ => True

instance (s : State) : (e : Event) → Decidable (Restarting s e)
  | .fire => inferInstanceAs (Decidable (s.reconnectTimer ≠ none →
      (s.stuck = true → s.connected = false ∧ s.connectionPromise = none) ∧
        (s.stopped = true → s.connected = true ∨ s.connectionPromise ≠ none)))
  | .resume brokerUrl => inferInstanceAs (Decidable (brokerUrl ∈ s.suspended → s.stopped = true →
      isConnected s = true ∨ s.connectionPromise ≠ none))
  | .connectCall _ _ => .isTrue trivial
  | .publishCall _ => .isTrue trivial
  | .subscribeCall => .isTrue trivial
  | .disconnectCall => .isTrue trivial
  | .ended => .isTrue trivial
  | .onConnect => .isTrue trivial
  | .onError => .isTrue trivial
  | .onOffline => .isTrue trivial
  | .onClose => .isTrue trivial
  | .onDisconnect => .isTrue trivial
  | .timeout _ => .isTrue trivial
  | .publishFailed => .isTrue trivial
  | .publishSucceeded => .isTrue trivial
  | .task _ => .isTrue trivial

structure Base (s : State) : Prop where
  socket : s.connected = true → s.client ≠ none
  pending : ∀ c ∈ s.client, s.outcome c.attempt = none →
    c.attempt ∈ s.timeouts ∧ s.connected = false
  created : ∀ c ∈ s.client, c.attempt < s.nextAttempt
  armed : ∀ a ∈ s.timeouts, a < s.nextAttempt
  fresh : ∀ a, s.nextAttempt ≤ a → s.outcome a = none
  promise : ∀ a ∈ s.connectionPromise, ∃ c ∈ s.client, c.attempt = a
  ending : s.ending ≠ 0 → s.disconnectCalled = true

def Way (s : State) (c : Client) : Prop :=
  s.reconnectTimer ≠ none ∨ (∃ url, Task.joined c.attempt url ∈ s.tasks) ∨
    (c.closed = false ∧ (c.closeOwed = true ∨ s.outcome c.attempt = none))

structure Inv (s : State) : Prop where
  base : Base s
  known : s.lastBrokerUrl ≠ none → s.client ≠ none ∨ s.suspended ≠ []
  way : s.connected = false → s.disconnectCalled = false → ∀ c ∈ s.client, Way s c

section
variable {s : State} {c : Client}

theorem Inv.forward (h : Inv s) (hoff : s.connected = false) (hurl : urlKnown s = true)
    (hcalled : s.disconnectCalled = false) : WayForward s := by
  have hknown : s.lastBrokerUrl ≠ none := by
    intro hnone
    unfold urlKnown at hurl
    rw [hnone] at hurl
    cases hurl
  rcases h.known hknown with hclient | hsuspended
  · obtain ⟨c,hc⟩ := Option.ne_none_iff_exists'.mp hclient
    rcases h.way hoff hcalled c hc with htimer | ⟨url,hjoined⟩ | ⟨-,howed | hpending⟩
    · exact Or.inl htimer
    · cases hout : s.outcome c.attempt with
      | none => exact Or.inr (Or.inl ⟨c,hc,hout,(h.base.pending c hc hout).1⟩)
      | some resolved =>
        refine Or.inr (Or.inr (Or.inr (Or.inl ⟨_,hjoined,?_⟩)))
        show s.outcome c.attempt ≠ none
        rw [hout]
        exact Option.some_ne_none resolved
    · exact Or.inr (Or.inr (Or.inl ⟨c,hc,howed⟩))
    · exact Or.inr (Or.inl ⟨c,hc,hpending,(h.base.pending c hc hpending).1⟩)
  · exact Or.inr (Or.inr (Or.inr (Or.inr hsuspended)))

theorem inv_schedule (h : Base s) (hknown : s.lastBrokerUrl ≠ none → s.client ≠ none ∨ s.suspended ≠ [])
    (brokerUrl : String) : Inv (scheduleReconnect s brokerUrl) := by
  unfold scheduleReconnect
  split
  · next url htimer =>
    refine ⟨h,hknown,fun _ _ c _ => Or.inl ?_⟩
    rw [htimer]
    exact Option.some_ne_none url
  · obtain ⟨hsocket,hpending,hcreated,harmed,hfresh,hpromise,hending⟩ := h
    exact ⟨⟨hsocket,hpending,hcreated,harmed,hfresh,hpromise,hending⟩,hknown,
      fun _ _ c _ => Or.inl (Option.some_ne_none brokerUrl)⟩

theorem inv_started : Inv started where
  base := {
    socket := fun h => absurd h Bool.false_ne_true
    pending := fun _ hc => absurd hc (Option.not_mem_none _)
    created := fun _ hc => absurd hc (Option.not_mem_none _)
    armed := fun _ ha => absurd ha List.not_mem_nil
    fresh := fun _ _ => rfl
    promise := fun _ ha => absurd ha (Option.not_mem_none _)
    ending := fun h => absurd rfl h }
  known := fun h => absurd rfl h
  way := fun _ _ _ hc => absurd hc (Option.not_mem_none _)

theorem inv_waitForConnection (h : Base s) (hoff : s.connected = false) (brokerUrl : String) :
    Inv (waitForConnection s brokerUrl) := by
  obtain ⟨-,-,-,harmed,hfresh,-,hending⟩ := h
  have hnew : s.outcome s.nextAttempt = none := hfresh _ (Nat.le_refl _)
  refine ⟨⟨fun hon => ?_,fun c hc _ => ?_,fun c hc => ?_,fun a ha => ?_,fun a ha => ?_,
    fun a ha => ?_,hending⟩,fun _ => Or.inl (Option.some_ne_none _),fun _ _ c hc => ?_⟩
  · exact absurd (hoff.symm.trans hon) Bool.false_ne_true
  · obtain rfl := Option.some.inj hc
    exact ⟨List.mem_cons_self,hoff⟩
  · obtain rfl := Option.some.inj hc
    exact Nat.lt_succ_self _
  · rcases List.mem_cons.mp ha with rfl | ha
    · exact Nat.lt_succ_self _
    · exact Nat.lt_succ_of_lt (harmed a ha)
  · exact hfresh a (Nat.le_of_succ_le ha)
  · obtain rfl := Option.some.inj ha
    exact ⟨_,rfl,rfl⟩
  · obtain rfl := Option.some.inj hc
    exact Or.inr (Or.inr ⟨rfl,Or.inr hnew⟩)

/-- After connect there is a client, whatever was known before. -/
theorem inv_proceed (h : Base s)
    (hway : s.connected = false → s.disconnectCalled = false → ∀ c ∈ s.client, Way s c)
    (brokerUrl : String) : Inv (proceed s brokerUrl) := by
  unfold proceed
  split
  · next hon =>
    have hclient : s.client ≠ none := by
      intro hnone
      simp [isConnected, hnone] at hon
    exact ⟨h,fun _ => Or.inl hclient,hway⟩
  · next hoff =>
    split
    · next a hpromise =>
      obtain ⟨c,hc,-⟩ := h.promise a hpromise
      refine ⟨h,fun _ => Or.inl ?_,hway⟩
      rw [Option.mem_def.mp hc]
      exact Option.some_ne_none c
    · refine inv_waitForConnection h ?_ brokerUrl
      -- a client that counts as connected exists
      by_contra hon
      have hon : s.connected = true := by simpa using hon
      have hsome : s.client.isSome = true := Option.isSome_iff_ne_none.mpr (h.socket hon)
      exact hoff (by simp [isConnected, hon, hsome])

theorem Inv.frame (h : Inv s) {failures : ℕ} {url : Option String} {suspended : List String}
    {stopped stuck : Bool} {restarts : List Bool} :
    Base { s with
      consecutivePublishFailures := failures
      lastBrokerUrl := url
      suspended := suspended
      stopped := stopped
      stuck := stuck
      restarts := restarts } ∧
    (s.connected = false → s.disconnectCalled = false → ∀ c ∈ s.client, Way { s with
      consecutivePublishFailures := failures
      lastBrokerUrl := url
      suspended := suspended
      stopped := stopped
      stuck := stuck
      restarts := restarts } c) := by
  obtain ⟨⟨hsocket,hpending,hcreated,harmed,hfresh,hpromise,hending⟩,-,hway⟩ := h
  exact ⟨⟨hsocket,hpending,hcreated,harmed,hfresh,hpromise,hending⟩,hway⟩

theorem inv_called (h : Inv s) : Inv (called s) :=
  ⟨h.frame.1,h.known,h.frame.2⟩

theorem inv_connect (h : Inv s) (brokerUrl : String) (enableBuffer : Bool) :
    Inv (connect s brokerUrl enableBuffer) := by
  unfold connect
  dsimp only
  split
  · exact ⟨h.frame.1,fun _ => Or.inr (List.cons_ne_nil _ _),h.frame.2⟩
  · exact inv_proceed (s := { s with lastBrokerUrl := some brokerUrl }) h.frame.1 h.frame.2 brokerUrl

theorem inv_resume (h : Inv s) (brokerUrl : String) : Inv (resume s brokerUrl) := by
  unfold resume
  split
  · exact inv_proceed (s := { s with suspended := s.suspended.erase brokerUrl }) h.frame.1 h.frame.2
      brokerUrl
  · exact h

theorem inv_ensureConnected (h : Inv s) : Inv (ensureConnected s) := by
  unfold ensureConnected
  split
  · exact h
  · split
    · exact h
    · split
      · exact h
      · split
        · exact h
        · exact inv_connect h _ false

theorem settle_eq_none {a : ℕ} {attempt : ℕ} {resolved : Bool} :
    (settle s attempt resolved).outcome a = none ↔ a ≠ attempt ∧ s.outcome a = none := by
  simp only [settle]
  split
  · next h => simp [h.1]
  · next h =>
    constructor
    · intro hnone
      exact ⟨fun he => h ⟨he,hnone⟩,hnone⟩
    · exact And.right

theorem mem_clearTimeout {a attempt : ℕ} :
    a ∈ (clearTimeout s attempt).timeouts ↔ a ∈ s.timeouts ∧ a ≠ attempt := by
  simp [clearTimeout]

theorem inv_handleConnect (h : Inv s) (hc : s.client = some c) : Inv (handleConnect s c) := by
  obtain ⟨hsocket,hpending,hcreated,harmed,hfresh,hpromise,hending⟩ := h.base
  refine ⟨⟨fun _ => ?_,fun d hd hnone => ?_,hcreated,fun a ha => harmed a (mem_clearTimeout.mp ha).1,
    fun a ha => ?_,fun a ha => ?_,hending⟩,fun _ => Or.inl ?_,fun hoff => ?_⟩
  · exact fun hnone => Option.some_ne_none c (hc.symm.trans hnone)
  · obtain rfl := Option.some.inj (hc.symm.trans hd)
    exact absurd rfl (settle_eq_none.mp hnone).1
  · refine settle_eq_none.mpr ⟨?_,hfresh a ha⟩
    have hlt := hcreated c hc
    have ha : s.nextAttempt ≤ a := ha
    omega
  · cases ha
  · exact fun hnone => Option.some_ne_none c (hc.symm.trans hnone)
  · exact absurd hoff.symm Bool.false_ne_true

theorem inv_endClient (h : Inv s) (hc : s.client = some c) (hoff : s.connected = false)
    {attempt : ℕ} (hlt : attempt < s.nextAttempt) {promise : Option ℕ}
    (hpromise : ∀ a ∈ promise, a ∈ s.connectionPromise) :
    Inv (settle { clearTimeout s attempt with
      client := some (endClient c)
      connectionPromise := promise } attempt false) := by
  obtain ⟨hsocket,hpending,hcreated,harmed,hfresh,hpromised,hending⟩ := h.base
  refine ⟨⟨fun _ => Option.some_ne_none _,fun d hd hnone => ?_,fun d hd => ?_,
    fun a ha => harmed a (mem_clearTimeout.mp ha).1,fun a ha => ?_,fun a ha => ?_,hending⟩,
    fun _ => Or.inl (Option.some_ne_none _),fun _ hcalled d hd => ?_⟩
  · obtain rfl := Option.some.inj hd
    obtain ⟨hne,hnone⟩ := settle_eq_none.mp hnone
    exact ⟨mem_clearTimeout.mpr ⟨(hpending c hc hnone).1,hne⟩,hoff⟩
  · obtain rfl := Option.some.inj hd
    exact hcreated c hc
  · refine settle_eq_none.mpr ⟨?_,hfresh a ha⟩
    have ha : s.nextAttempt ≤ a := ha
    omega
  · obtain ⟨d,hd,rfl⟩ := hpromised a (hpromise a ha)
    obtain rfl := Option.some.inj (hc.symm.trans hd)
    exact ⟨endClient c,rfl,rfl⟩
  · obtain rfl := Option.some.inj hd
    rcases h.way hoff hcalled c hc with htimer | hjoined | ⟨hopen,-⟩
    · exact Or.inl htimer
    · exact Or.inr (Or.inl hjoined)
    · refine Or.inr (Or.inr ⟨hopen,Or.inl ?_⟩)
      show (!c.closed) = true
      rw [hopen]
      rfl

theorem inv_handleConnectionError (h : Inv s) (hc : s.client = some c) :
    Inv (handleConnectionError s c) := by
  unfold handleConnectionError
  split
  · exact h
  · next hoff =>
    exact inv_endClient h hc (by simpa using hoff) (h.base.created c hc)
      (fun a ha => absurd ha (Option.not_mem_none a))

theorem inv_timeout (h : Inv s) (attempt : ℕ) : Inv (timeout s attempt) := by
  unfold timeout
  split
  · next harmed =>
    dsimp only
    split
    · next hon =>
      obtain ⟨hsocket,hpending,hcreated,harmed,hfresh,hpromise,hending⟩ := h.base
      refine ⟨⟨hsocket,fun c hc hnone => ?_,hcreated,fun a ha => harmed a (mem_clearTimeout.mp ha).1,
        hfresh,hpromise,hending⟩,h.known,fun hoff => ?_⟩
      · exact absurd ((hpending c hc hnone).2.symm.trans hon) Bool.false_ne_true
      · exact absurd (hoff.symm.trans hon) Bool.false_ne_true
    · next hoff =>
      cases hc : s.client with
      | none =>
        obtain ⟨hsocket,hpending,hcreated,harmed,hfresh,hpromise,hending⟩ := h.base
        refine ⟨⟨hsocket,fun c hc' => ?_,hcreated,fun a ha => harmed a (mem_clearTimeout.mp ha).1,
          hfresh,hpromise,hending⟩,h.known,fun _ _ c hc' => ?_⟩
        · cases hc.symm.trans hc'
        · cases hc.symm.trans hc'
      | some c =>
        exact inv_endClient h hc (by simpa using hoff) (h.base.armed attempt harmed)
          (fun a ha => ha)
  · exact h

theorem inv_lost (h : Inv s) (hc : s.client = some c) {d : Client} (hd : d.attempt = c.attempt) :
    Inv (scheduleReconnect { s with client := some d, connected := false } d.brokerUrl) := by
  obtain ⟨-,hpending,hcreated,harmed,hfresh,hpromise,hending⟩ := h.base
  refine inv_schedule (s := { s with client := some d, connected := false })
    ⟨fun hon => ?_,fun e he hnone => ?_,fun e he => ?_,harmed,hfresh,fun a ha => ?_,hending⟩
    (fun _ => Or.inl (Option.some_ne_none d)) d.brokerUrl
  · cases hon
  · obtain rfl := Option.some.inj he
    rw [hd] at hnone ⊢
    exact ⟨(hpending c hc hnone).1,rfl⟩
  · obtain rfl := Option.some.inj he
    rw [hd]
    exact hcreated c hc
  · obtain ⟨e,he,rfl⟩ := hpromise a ha
    obtain rfl := Option.some.inj (hc.symm.trans he)
    exact ⟨d,rfl,hd⟩

theorem inv_handleOffline (h : Inv s) (hc : s.client = some c) : Inv (handleOffline s c) := by
  have hlost := inv_lost h hc (d := c) rfl
  rw [← hc] at hlost
  exact hlost

theorem inv_handleClose (h : Inv s) (hc : s.client = some c) : Inv (handleClose s c) :=
  inv_lost h hc (d := { c with closeOwed := false, closed := true }) rfl

theorem inv_onClient (h : Inv s) {handle : State → Client → State}
    (hhandle : ∀ c, s.client = some c → Inv (handle s c)) : Inv (onClient s handle) := by
  unfold onClient
  cases hc : s.client with
  | none => exact h
  | some c => exact hhandle c hc

theorem inv_publishFailed (h : Inv s) : Inv (publishFailed s) := by
  unfold publishFailed
  dsimp only
  split
  · exact ⟨h.frame.1,h.known,h.frame.2⟩
  · split
    · exact inv_schedule (s := { s with
        consecutivePublishFailures := s.consecutivePublishFailures+1
        stuck := true }) h.frame.1 h.known _
    · exact ⟨h.frame.1,h.known,h.frame.2⟩

theorem noteRestart_eq (restarted : Bool) : noteRestart s restarted =
    { s with restarts := if s.stuck then restarted::s.restarts else s.restarts } := by
  unfold noteRestart
  split
  · rfl
  · rfl

theorem Inv.addTask (h : Inv s) (t : Task) : Inv { s with tasks := t::s.tasks } := by
  obtain ⟨⟨hsocket,hpending,hcreated,harmed,hfresh,hpromise,hending⟩,hknown,hway⟩ := h
  refine ⟨⟨hsocket,hpending,hcreated,harmed,hfresh,hpromise,hending⟩,hknown,
    fun hoff hcalled c hc => ?_⟩
  rcases hway hoff hcalled c hc with htimer | ⟨url,hjoined⟩ | howed
  · exact Or.inl htimer
  · exact Or.inr (Or.inl ⟨url,List.mem_cons_of_mem _ hjoined⟩)
  · exact Or.inr (Or.inr howed)

theorem fire_connected {url : String} (htimer : s.reconnectTimer = some url)
    (hon : s.connected = true) : fire s = { s with
      reconnectTimer := none
      restarts := if s.stuck then false::s.restarts else s.restarts } := by
  unfold fire
  rw [htimer]
  dsimp only
  rw [if_pos hon, noteRestart_eq]

theorem fire_joined {url : String} (htimer : s.reconnectTimer = some url)
    (hoff : s.connected = false) {a : ℕ} (hpromise : s.connectionPromise = some a) :
    fire s = { s with
      reconnectTimer := none
      tasks := .joined a url::s.tasks
      restarts := if s.stuck then false::s.restarts else s.restarts } := by
  unfold fire
  rw [htimer]
  dsimp only
  rw [hoff, if_neg Bool.false_ne_true, hpromise]
  dsimp only
  rw [noteRestart_eq]

theorem fire_started {url : String} (htimer : s.reconnectTimer = some url)
    (hoff : s.connected = false) (hpromise : s.connectionPromise = none) :
    fire s = { waitForConnection { s with
        client := none
        reconnectTimer := none
        lastBrokerUrl := some url
        restarts := if s.stuck then true::s.restarts else s.restarts } url with
      tasks := .caught s.nextAttempt url::s.tasks } := by
  unfold fire
  rw [htimer]
  dsimp only
  rw [hoff, if_neg Bool.false_ne_true, hpromise]
  dsimp only
  rw [noteRestart_eq]
  unfold connect proceed isConnected
  simp only [Bool.false_and, Bool.false_eq_true, if_false]
  rfl

theorem inv_fire (h : Inv s) : Inv (fire s) := by
  obtain ⟨hsocket,hpending,hcreated,harmed,hfresh,hpromise,hending⟩ := h.base
  cases htimer : s.reconnectTimer with
  | none =>
    unfold fire
    rw [htimer]
    exact h
  | some url =>
    cases hoff : s.connected with
    | true =>
      rw [fire_connected htimer hoff]
      refine ⟨⟨hsocket,hpending,hcreated,harmed,hfresh,hpromise,hending⟩,h.known,fun hoff' => ?_⟩
      exact absurd (hoff'.symm.trans hoff) Bool.false_ne_true
    | false =>
      cases hnone : s.connectionPromise with
      | some a =>
        -- the attempt in progress is that of the client
        rw [fire_joined htimer hoff hnone]
        refine ⟨⟨hsocket,hpending,hcreated,harmed,hfresh,hpromise,hending⟩,h.known,
          fun _ _ c hc => Or.inr (Or.inl ⟨url,?_⟩)⟩
        obtain ⟨d,hd,rfl⟩ := hpromise a hnone
        obtain rfl := Option.some.inj (Eq.trans (Eq.symm hc) hd)
        exact List.mem_cons_self
      | none =>
        rw [fire_started htimer hoff hnone]
        have hbase : Base { s with
            client := none
            reconnectTimer := none
            lastBrokerUrl := some url
            restarts := if s.stuck then true::s.restarts else s.restarts } := by
          refine ⟨fun hon => ?_,fun c hc => ?_,fun c hc => ?_,harmed,hfresh,fun a ha => ?_,hending⟩
          · exact absurd (hoff.symm.trans hon) Bool.false_ne_true
          · cases hc
          · cases hc
          · cases Eq.trans (Eq.symm ha) hnone
        exact (inv_waitForConnection hbase hoff url).addTask (.caught s.nextAttempt url)

theorem inv_runTask (h : Inv s) (t : Task) : Inv (runTask s t) := by
  obtain ⟨hsocket,hpending,hcreated,harmed,hfresh,hpromise,hending⟩ := h.base
  have hscheduled : ∀ url, Inv (scheduleReconnect
      { s with tasks := s.tasks.erase t, connectionPromise := none } url) := fun url =>
    inv_schedule (s := { s with tasks := s.tasks.erase t, connectionPromise := none })
      ⟨hsocket,hpending,hcreated,harmed,hfresh,fun a ha => absurd ha (Option.not_mem_none a),hending⟩
      h.known url
  unfold runTask
  split
  · dsimp only
    cases t with
    | caught a url =>
      dsimp only
      split
      · exact h
      · refine ⟨⟨hsocket,hpending,hcreated,harmed,hfresh,hpromise,hending⟩,h.known,
          fun hoff hcalled c hc => ?_⟩
        rcases h.way hoff hcalled c hc with htimer | ⟨url',hjoined⟩ | howed
        · exact Or.inl htimer
        · exact Or.inr (Or.inl ⟨url',(List.mem_erase_of_ne (by simp)).mpr hjoined⟩)
        · exact Or.inr (Or.inr howed)
      · exact hscheduled url
    | joined a url =>
      dsimp only
      split
      · exact h
      · split
        · next hon =>
          refine ⟨⟨hsocket,hpending,hcreated,harmed,hfresh,hpromise,hending⟩,h.known,fun hoff => ?_⟩
          exact absurd (hoff.symm.trans hon) Bool.false_ne_true
        · exact hscheduled url
  · exact h

theorem inv_disconnect (h : Inv s) : Inv (disconnect s) := by
  obtain ⟨hsocket,hpending,hcreated,harmed,hfresh,hpromise,-⟩ := h.base
  have hquiet : ∀ {P : Prop}, true = false → P := fun hf => absurd hf.symm Bool.false_ne_true
  unfold disconnect
  dsimp only
  split
  · exact ⟨⟨hsocket,hpending,hcreated,harmed,hfresh,hpromise,fun _ => rfl⟩,h.known,
      fun _ hcalled => hquiet hcalled⟩
  · next c hc =>
    refine ⟨⟨fun _ => Option.some_ne_none _,fun d hd hnone => ?_,fun d hd => ?_,harmed,hfresh,
      fun a ha => ?_,fun _ => rfl⟩,fun _ => Or.inl (Option.some_ne_none _),
      fun _ hcalled => hquiet hcalled⟩
    · obtain rfl := Option.some.inj hd
      exact hpending c hc hnone
    · obtain rfl := Option.some.inj hd
      exact hcreated c hc
    · obtain ⟨d,hd,rfl⟩ := hpromise a ha
      obtain rfl := Option.some.inj (hc.symm.trans hd)
      exact ⟨endClient c,rfl,rfl⟩

theorem inv_ended (h : Inv s) : Inv (ended s) := by
  unfold ended
  split
  · exact h
  · next hending =>
    have hcalled := h.base.ending hending
    obtain ⟨-,hpending,hcreated,harmed,hfresh,hpromise,-⟩ := h.base
    refine ⟨⟨fun hon => ?_,fun c hc hnone => ⟨(hpending c hc hnone).1,rfl⟩,hcreated,harmed,hfresh,
      hpromise,fun _ => hcalled⟩,h.known,fun _ hquiet => ?_⟩
    · cases hon
    · exact absurd (hquiet.symm.trans hcalled) Bool.false_ne_true

theorem inv_step (h : Inv s) (e : Event) : Inv (step s e) := by
  cases e with
  | connectCall brokerUrl enableBuffer => exact inv_connect (inv_called h) brokerUrl enableBuffer
  | resume brokerUrl => exact inv_resume h brokerUrl
  | publishCall buffered =>
    cases buffered
    · exact inv_ensureConnected (inv_called h)
    · exact inv_called h
  | subscribeCall => exact inv_ensureConnected (inv_called h)
  | disconnectCall => exact inv_disconnect h
  | ended => exact inv_ended h
  | onConnect => exact inv_onClient h (fun _ => inv_handleConnect h)
  | onError => exact inv_onClient h (fun _ => inv_handleConnectionError h)
  | onOffline => exact inv_onClient h (fun _ => inv_handleOffline h)
  | onClose => exact inv_onClient h (fun _ => inv_handleClose h)
  | onDisconnect => exact inv_onClient h (fun _ => inv_handleOffline h)
  | timeout attempt => exact inv_timeout h attempt
  | publishFailed => exact inv_publishFailed h
  | publishSucceeded => exact ⟨h.frame.1,h.known,h.frame.2⟩
  | fire => exact inv_fire h
  | task t => exact inv_runTask h t

structure Promising (s : State) : Prop where
  scheduled : s.stuck = true → s.reconnectTimer ≠ none
  restarted : ∀ restarted ∈ s.restarts, restarted = true
  quiet : ∀ stopped ∈ s.starts, stopped = false

theorem promising_schedule (h : Promising s) {stuck : Bool} (brokerUrl : String) :
    Promising (scheduleReconnect { s with stuck := stuck } brokerUrl) := by
  unfold scheduleReconnect
  split
  · next url htimer =>
    refine ⟨fun _ hnone => ?_,h.restarted,h.quiet⟩
    cases Eq.trans (Eq.symm hnone) htimer
  · exact ⟨fun _ => Option.some_ne_none brokerUrl,h.restarted,h.quiet⟩

theorem quiet_started_iff (h : Promising s) :
    (∀ stopped ∈ s.stopped::s.starts, stopped = false) ↔ s.stopped = false := by
  rw [List.forall_mem_cons]
  exact and_iff_left h.quiet

theorem restarted_started (h : Promising s) :
    ∀ restarted ∈ (if s.stuck then true::s.restarts else s.restarts), restarted = true := by
  split
  · rw [List.forall_mem_cons]
    exact ⟨rfl,h.restarted⟩
  · exact h.restarted

theorem promising_proceed_iff (h : Promising s) (brokerUrl : String) :
    Promising (proceed s brokerUrl) ↔
      (s.stopped = true → isConnected s = true ∨ s.connectionPromise ≠ none) := by
  unfold proceed
  split
  · next hon => exact iff_of_true h (fun _ => Or.inl hon)
  · next hoff =>
    split
    · next a ha =>
      refine iff_of_true h (fun _ => Or.inr ?_)
      rw [ha]
      exact Option.some_ne_none a
    · next hnone =>
      constructor
      · intro hnext hstopped
        have hrunning := (quiet_started_iff h).mp hnext.quiet
        cases hstopped.symm.trans hrunning
      · intro hrunning
        refine ⟨fun hstuck => absurd hstuck Bool.false_ne_true,h.restarted,
          (quiet_started_iff h).mpr ?_⟩
        by_contra hstopped
        rcases hrunning (by simpa using hstopped) with hon | hsome
        · exact hoff hon
        · exact hsome hnone

theorem promising_connect (h : Promising s) (hrunning : s.stopped = false) (brokerUrl : String)
    (enableBuffer : Bool) : Promising (connect s brokerUrl enableBuffer) := by
  unfold connect
  dsimp only
  split
  · exact ⟨h.scheduled,h.restarted,h.quiet⟩
  · refine (promising_proceed_iff (s := { s with lastBrokerUrl := some brokerUrl })
      ⟨h.scheduled,h.restarted,h.quiet⟩ brokerUrl).mpr (fun hstopped => ?_)
    cases hstopped.symm.trans hrunning

theorem promising_ensureConnected (h : Promising s) (hrunning : s.stopped = false) :
    Promising (ensureConnected s) := by
  unfold ensureConnected
  split
  · exact h
  · split
    · exact h
    · split
      · exact h
      · split
        · exact h
        · exact promising_connect h hrunning _ false

theorem promising_resume_iff (h : Promising s) (brokerUrl : String) :
    Promising (resume s brokerUrl) ↔ Restarting s (.resume brokerUrl) := by
  unfold resume
  split
  · next hmem =>
    refine (promising_proceed_iff (s := { s with suspended := s.suspended.erase brokerUrl })
      ⟨h.scheduled,h.restarted,h.quiet⟩ brokerUrl).trans ⟨fun hrunning _ => hrunning,
        fun hok => hok hmem⟩
  · next hmem => exact iff_of_true h (fun hmem' => absurd hmem' hmem)

theorem promising_idle_iff (h : Promising s) {t : State} (hstuck : t.stuck = s.stuck)
    (hstarts : t.starts = s.starts)
    (hrestarts : t.restarts = (if s.stuck then false::s.restarts else s.restarts)) :
    Promising t ↔ s.stuck = false := by
  cases hs : s.stuck with
  | true =>
    rw [hs] at hrestarts
    refine iff_of_false (fun hnext => ?_) (by decide)
    have hfirst := hnext.restarted false (by rw [hrestarts]; exact List.mem_cons_self)
    cases hfirst
  | false =>
    rw [hs] at hstuck hrestarts
    refine iff_of_true ⟨fun hstuck' => ?_,?_,?_⟩ rfl
    · cases hstuck.symm.trans hstuck'
    · rw [hrestarts]
      exact h.restarted
    · rw [hstarts]
      exact h.quiet

theorem promising_fire_iff (h : Promising s) : Promising (fire s) ↔ Restarting s .fire := by
  cases htimer : s.reconnectTimer with
  | none =>
    refine iff_of_true ?_ (fun hsome => absurd htimer hsome)
    unfold fire
    rw [htimer]
    exact h
  | some url =>
    have hset : s.reconnectTimer ≠ none := by
      rw [htimer]
      exact Option.some_ne_none url
    have hidle : s.connected = true ∨ s.connectionPromise ≠ none → ∀ t : State, t.stuck = s.stuck →
        t.starts = s.starts → t.restarts = (if s.stuck then false::s.restarts else s.restarts) →
        (Promising t ↔ Restarting s .fire) := by
      intro hbusy t hstuck hstarts hrestarts
      refine (promising_idle_iff h hstuck hstarts hrestarts).trans ⟨fun hfree _ => ?_,fun hok => ?_⟩
      · exact ⟨fun hstuck' => absurd (hfree.symm.trans hstuck') Bool.false_ne_true,fun _ => hbusy⟩
      · by_contra hstuck'
        obtain ⟨hgone,hnone⟩ := (hok hset).1 (by simpa using hstuck')
        rcases hbusy with hon | hsome
        · cases hon.symm.trans hgone
        · exact hsome hnone
    cases hoff : s.connected with
    | true =>
      rw [fire_connected htimer hoff]
      exact hidle (Or.inl hoff) _ rfl rfl rfl
    | false =>
      cases hpromise : s.connectionPromise with
      | some a =>
        rw [fire_joined htimer hoff hpromise]
        exact hidle (Or.inr (hpromise ▸ Option.some_ne_none a)) _ rfl rfl rfl
      | none =>
        rw [fire_started htimer hoff hpromise]
        constructor
        · refine fun hnext _ => ⟨fun _ => ⟨hoff,hpromise⟩,fun hstopped => ?_⟩
          have hrunning := (quiet_started_iff h).mp hnext.quiet
          cases hstopped.symm.trans hrunning
        · intro hok
          refine ⟨fun hstuck => absurd hstuck Bool.false_ne_true,restarted_started h,
            (quiet_started_iff h).mpr ?_⟩
          by_contra hstopped
          rcases (hok hset).2 (by simpa using hstopped) with hon | hsome
          · cases hoff.symm.trans hon
          · exact hsome hpromise

theorem promising_runTask (h : Promising s) (t : Task) : Promising (runTask s t) := by
  have hscheduled : ∀ url, Promising (scheduleReconnect
      { s with tasks := s.tasks.erase t, connectionPromise := none } url) := fun url =>
    promising_schedule (s := { s with tasks := s.tasks.erase t, connectionPromise := none })
      ⟨h.scheduled,h.restarted,h.quiet⟩ url
  unfold runTask
  split
  · dsimp only
    cases t with
    | caught a url =>
      dsimp only
      split
      · exact h
      · exact ⟨h.scheduled,h.restarted,h.quiet⟩
      · exact hscheduled url
    | joined a url =>
      dsimp only
      split
      · exact h
      · split
        · exact ⟨h.scheduled,h.restarted,h.quiet⟩
        · exact hscheduled url
  · exact h

theorem promising_disconnect (h : Promising s) : Promising (disconnect s) := by
  unfold disconnect
  dsimp only
  split
  · exact ⟨h.scheduled,h.restarted,h.quiet⟩
  · exact ⟨h.scheduled,h.restarted,h.quiet⟩

theorem promising_ended (h : Promising s) : Promising (ended s) := by
  unfold ended
  split
  · exact h
  · exact ⟨h.scheduled,h.restarted,h.quiet⟩

theorem promising_timeout (h : Promising s) (attempt : ℕ) : Promising (timeout s attempt) := by
  unfold timeout
  split
  · dsimp only
    split
    · exact ⟨h.scheduled,h.restarted,h.quiet⟩
    · split
      · exact ⟨h.scheduled,h.restarted,h.quiet⟩
      · exact ⟨h.scheduled,h.restarted,h.quiet⟩
  · exact h

theorem promising_publishFailed (h : Promising s) : Promising (publishFailed s) := by
  unfold publishFailed
  dsimp only
  split
  · exact ⟨h.scheduled,h.restarted,h.quiet⟩
  · split
    · exact promising_schedule
        (s := { s with consecutivePublishFailures := s.consecutivePublishFailures+1 })
        ⟨h.scheduled,h.restarted,h.quiet⟩ _
    · exact ⟨h.scheduled,h.restarted,h.quiet⟩

theorem promising_step_iff (h : Promising s) (e : Event) :
    Promising (step s e) ↔ Restarting s e := by
  have hcalled : Promising (called s) := ⟨h.scheduled,h.restarted,h.quiet⟩
  have hclient : ∀ handle : State → Client → State, (∀ c, Promising (handle s c)) →
      Promising (onClient s handle) := by
    intro handle hhandle
    unfold onClient
    split
    · exact h
    · exact hhandle _
  have hlost : ∀ c : Client, ∀ d : Option Client, Promising
      (scheduleReconnect { s with client := d, connected := false } c.brokerUrl) := fun c d =>
    promising_schedule (s := { s with client := d, connected := false })
      ⟨h.scheduled,h.restarted,h.quiet⟩ c.brokerUrl
  cases e with
  | connectCall brokerUrl enableBuffer =>
    exact iff_of_true (promising_connect hcalled rfl brokerUrl enableBuffer) trivial
  | resume brokerUrl => exact promising_resume_iff h brokerUrl
  | publishCall buffered =>
    cases buffered
    · exact iff_of_true (promising_ensureConnected hcalled rfl) trivial
    · exact iff_of_true hcalled trivial
  | subscribeCall => exact iff_of_true (promising_ensureConnected hcalled rfl) trivial
  | disconnectCall => exact iff_of_true (promising_disconnect h) trivial
  | ended => exact iff_of_true (promising_ended h) trivial
  | onConnect =>
    refine iff_of_true (hclient _ (fun c => ?_)) trivial
    exact ⟨fun hstuck => absurd hstuck Bool.false_ne_true,h.restarted,h.quiet⟩
  | onError =>
    refine iff_of_true (hclient _ (fun c => ?_)) trivial
    unfold handleConnectionError
    split
    · exact h
    · exact ⟨h.scheduled,h.restarted,h.quiet⟩
  | onOffline => exact iff_of_true (hclient _ (fun c => hlost c s.client)) trivial
  | onClose => exact iff_of_true (hclient _ (fun c => hlost c _)) trivial
  | onDisconnect => exact iff_of_true (hclient _ (fun c => hlost c s.client)) trivial
  | timeout attempt => exact iff_of_true (promising_timeout h attempt) trivial
  | publishFailed => exact iff_of_true (promising_publishFailed h) trivial
  | publishSucceeded =>
    exact iff_of_true ⟨fun hstuck => absurd hstuck Bool.false_ne_true,h.restarted,h.quiet⟩ trivial
  | fire => exact promising_fire_iff h
  | task t => exact iff_of_true (promising_runTask h t) trivial

theorem supervised_iff_promising (h : Inv s) : Supervised s ↔ Promising s :=
  ⟨fun hs => ⟨hs.scheduled,hs.restarted,hs.quiet⟩,
    fun hp => ⟨h.forward,hp.scheduled,hp.restarted,hp.quiet⟩⟩

end

theorem supervised_iff (es : List Event) :
    (∀ pre, pre <+: es → Supervised (run step pre started)) ↔ Meets step Restarting es started := by
  have hstart : Promising started :=
    ⟨fun hstuck => absurd hstuck Bool.false_ne_true,fun _ hr => absurd hr List.not_mem_nil,
      fun _ hs => absurd hs List.not_mem_nil⟩
  refine always_iff_meets (I := Inv) (P := Supervised) (fun _ e h => inv_step h e)
    (fun s e h hs => ?_) es started inv_started ((supervised_iff_promising inv_started).mpr hstart)
  exact (supervised_iff_promising (inv_step h e)).trans
    (promising_step_iff ((supervised_iff_promising h).mp hs) e)

def stuckSocket : List Event :=
  [.connectCall "mqtt://broker" false,.onConnect,.publishFailed,.publishFailed,.publishFailed,.fire]

def shutDown : List Event :=
  [.connectCall "mqtt://broker" false,.onConnect,.disconnectCall,.onClose,.ended,.fire]

theorem stuck_and_shut_down :
    ((run step stuckSocket started).restarts = [false] ∧
      ¬Supervised (run step stuckSocket started)) ∧
    ((run step shutDown started).starts = [true,false] ∧
      ¬Supervised (run step shutDown started)) := by
  have hstuck : (run step stuckSocket started).restarts = [false] := by decide +kernel
  have hshut : (run step shutDown started).starts = [true,false] := by decide +kernel
  refine ⟨⟨hstuck,fun h => ?_⟩,hshut,fun h => ?_⟩
  · have hfirst := h.restarted false (by rw [hstuck]; exact List.mem_cons_self)
    cases hfirst
  · have hfirst := h.quiet true (by rw [hshut]; exact List.mem_cons_self)
    cases hfirst

end Iotistica.AgentConnection
