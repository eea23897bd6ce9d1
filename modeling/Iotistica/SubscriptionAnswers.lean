import Iotistica.SubscriptionCounts

/-!
# What answers and connections do to subscriptions

An answer is safe when the rollback or the removal behind it takes nothing
that another live call has. The broker takes requests in order, and a new
connection asks for every topic again. In a run of safe answers every
resolved call is served whenever nothing is outstanding.
-/

set_option autoImplicit false

namespace Iotistica.AgentSubscriptions
open Iotistica.GuardedRun Iotistica.KeyedTable

section
variable {s : State} {c : Call} {phase : Phase}

structure Answered (s : State) (r : Request) (answered : List (Request × Answer))
    (lost : List Request) : Prop where
  fewer : ∀ x ∈ answered, x ∈ s.answered
  count : ∀ p : Request → Bool,
    (s.queue++answered.map Prod.fst++(s.offline++lost)).countP p+(if p r then 1 else 0) =
      (outstanding s).countP p

section
variable {r : Request} {answered : List (Request × Answer)} {lost : List Request}

theorem answered_deliver {a : Answer} (hr : (r,a) ∈ s.answered) :
    Answered s r (s.answered.erase (r,a)) s.lost := by
  refine ⟨fun x hx => List.mem_of_mem_erase hx,fun p => ?_⟩
  have hperm := ((List.perm_cons_erase hr).map Prod.fst).countP_eq p
  rw [List.map_cons, List.countP_cons] at hperm
  simp only [outstanding, List.countP_append, hperm]
  omega

theorem answered_fail (hr : r ∈ s.lost) : Answered s r s.answered (s.lost.erase r) := by
  refine ⟨fun x hx => hx,fun p => ?_⟩
  have hperm := (List.perm_cons_erase hr).countP_eq p
  rw [List.countP_cons] at hperm
  simp only [outstanding, List.countP_append, hperm]
  omega

theorem Answered.mem (h : Answered s r answered lost) {q : Request}
    (hq : q ∈ s.queue++answered.map Prod.fst++(s.offline++lost)) : q ∈ outstanding s := by
  have hcount := h.count (fun x => x = q)
  have hpos : 0 < (s.queue++answered.map Prod.fst++(s.offline++lost)).countP (fun x => x = q) :=
    List.countP_pos_iff.mpr ⟨q,hq,decide_eq_true rfl⟩
  obtain ⟨x,hx,heq⟩ := List.countP_pos_iff.mp (show 0 < (outstanding s).countP (fun x => x = q) by
    omega)
  obtain rfl := of_decide_eq_true heq
  exact hx

theorem Answered.offline (h : Answered s r answered lost) (hkept : Kept s)
    (hoff : s.connected = false) : s.queue = [] ∧ answered = [] := by
  obtain ⟨hqueue,hans⟩ := hkept.offline hoff
  refine ⟨hqueue,List.eq_nil_iff_forall_not_mem.mpr (fun x hx => ?_)⟩
  have hmem := h.fewer x hx
  rw [hans] at hmem
  exact List.not_mem_nil hmem

theorem inv_answered (h : Inv s) (hans : Answered s r answered lost)
    (hr : ∀ id, asks id r = false) : Inv { s with answered := answered, lost := lost } := by
  refine ⟨⟨h.counted.topics,fun id => ?_,fun id topic handler hq =>
    h.counted.named id topic handler (hans.mem hq)⟩,⟨h.routed.routed⟩,
    ⟨hans.offline h.kept,h.kept.online,h.kept.secured,fun id topic handler a hq hok => ?_,
      h.kept.ordered⟩⟩
  · have hcount := hans.count (asks id)
    rw [hr id, if_neg Bool.false_ne_true] at hcount
    exact hcount.trans (h.counted.asked id)
  · exact h.kept.granted id topic handler a (hans.fewer _ hq) hok

theorem pending_of_asked (h : Counted s) {id : ℕ} {topic : String} {handler : Option ℕ}
    (hr : .subscribe id topic handler ∈ outstanding s) :
    ∃ c ∈ s.calls.rows, c.phase = .pending ∧ c.id = id ∧ c.topic = topic ∧ c.handler = handler := by
  have hpos : 0 < (outstanding s).countP (asks id) :=
    List.countP_pos_iff.mpr ⟨_,hr,by simp [asks]⟩
  rw [h.asked id] at hpos
  obtain ⟨c,hc,hpending⟩ := List.countP_pos_iff.mp hpos
  simp only [pendingAs, Bool.and_eq_true, decide_eq_true_eq] at hpending
  obtain ⟨htopic,hhandler⟩ := h.named id topic handler hr c hc hpending.1
  exact ⟨c,hc,hpending.2,hpending.1,htopic,hhandler⟩

theorem asked_setPhase (h : Counted s) (hc : c ∈ s.calls.rows) (hpending : c.phase = .pending)
    (hans : Answered s (.subscribe c.id c.topic c.handler) answered lost)
    (hafter : phase ≠ .pending) (id : ℕ) :
    (s.queue++answered.map Prod.fst++(s.offline++lost)).countP (asks id) =
      (setPhase s c.id phase).calls.rows.countP (pendingAs id) := by
  have hcount := countP_setPhase phase hc (pendingAs id)
  have hasked := hans.count (asks id)
  rw [h.asked id] at hasked
  have hbefore : pendingAs id c = asks id (.subscribe c.id c.topic c.handler) := by
    simp [pendingAs, asks, hpending]
  have hnow : pendingAs id { c with phase := phase } = false := by simp [pendingAs, hafter]
  rw [hbefore, hnow, if_neg Bool.false_ne_true] at hcount
  omega

theorem inv_resolved (h : Inv s) (hc : c ∈ s.calls.rows) (hpending : c.phase = .pending)
    (hans : Answered s (.subscribe c.id c.topic c.handler) answered lost)
    (hsec : Secured s c.topic) :
    Inv (setPhase { s with answered := answered, lost := lost } c.id .resolved) := by
  have hlive : c.phase.live = true := by rw [hpending]; rfl
  refine ⟨⟨fun topic => ?_,asked_setPhase h.counted hc hpending hans (by simp),
    fun id topic handler hq => named_setPhase h.counted hc (hans.mem hq)⟩,
    ⟨(routed_setPhase .resolved h.routed hc (fun _ => hlive)).routed⟩,
    ⟨hans.offline h.kept,h.kept.online,fun hon d hd hres => ?_,
      fun id topic handler a hq hok => ?_,h.kept.ordered⟩⟩
  · have hcount := countP_setPhase .resolved hc (liveOn topic)
    have hsame : liveOn topic { c with phase := .resolved } = liveOn topic c := by
      simp only [liveOn, hlive]
      rfl
    rw [hsame] at hcount
    have heq : liveCount (setPhase { s with answered := answered, lost := lost } c.id .resolved) topic =
        liveCount s topic := Nat.add_right_cancel hcount
    rw [heq]
    exact h.counted.topics topic
  · rcases (mem_setPhase hc).mp hd with rfl | ⟨hd,-⟩
    · exact Or.inl hsec
    · rcases h.kept.secured hon d hd hres with hkept | ⟨e,he,htopic,hpend⟩
      · exact Or.inl hkept
      · by_cases hid : e.id = c.id
        · refine Or.inl ?_
          rw [← htopic, s.calls.key_unique he hc hid]
          exact hsec
        · exact Or.inr ⟨e,(mem_setPhase hc).mpr (Or.inr ⟨he,hid⟩),htopic,hpend⟩
  · exact h.kept.granted id topic handler a (hans.fewer _ hq) hok

theorem rollback_eq (h : Counted s) (hc : c ∈ s.calls.rows) (hlive : c.phase.live = true) :
    rollback { s with answered := answered, lost := lost } c.topic c.handler =
      { s with
        answered := answered
        lost := lost
        handlers := withoutHandler s.handlers c.handler
        subscribedTopics :=
          if liveCount s c.topic ≤ 1 then s.subscribedTopics.delete c.topic
          else s.subscribedTopics.set c.topic (liveCount s c.topic-1) } := by
  have hpos := liveCount_pos hc hlive
  have hget : (s.subscribedTopics.get? c.topic).getD 1 = liveCount s c.topic := by
    rw [h.topics c.topic, if_neg (Nat.ne_of_gt hpos)]
    rfl
  unfold rollback
  rw [show ({ s with answered := answered, lost := lost } : State).subscribedTopics =
    s.subscribedTopics from rfl, hget]

theorem inv_rejected (h : Inv s) (hc : c ∈ s.calls.rows) (hpending : c.phase = .pending)
    (hans : Answered s (.subscribe c.id c.topic c.handler) answered lost)
    (hsafe : RollbackSafe s c.id c.topic c.handler) (message : String) :
    Inv (setPhase (rollback { s with answered := answered, lost := lost } c.topic c.handler) c.id
      (.rejected message)) := by
  have hlive : c.phase.live = true := by rw [hpending]; rfl
  rw [rollback_eq h.counted hc hlive]
  refine ⟨⟨topics_lower _ h.counted hc hlive rfl,asked_setPhase h.counted hc hpending hans (by simp),
    fun id topic handler hq => named_setPhase h.counted hc (hans.mem hq)⟩,
    ⟨fun d hd hdlive k hk => ?_⟩,
    ⟨hans.offline h.kept,h.kept.online,fun hon d hd hres => ?_,
      fun id topic handler a hq hok => ?_,h.kept.ordered⟩⟩
  · rcases (mem_setPhase hc).mp hd with rfl | ⟨hd,hid⟩
    · cases hdlive
    · have hrouted := h.routed.routed d hd hdlive k hk
      show (d.topic,k) ∈ withoutHandler s.handlers c.handler
      unfold withoutHandler
      split
      · next own hown =>
        refine List.mem_filter.mpr ⟨hrouted,decide_eq_true (fun he => ?_)⟩
        have he : k = own := he
        subst he
        exact hsafe.1 k hown d hd hid hdlive hk
      · exact hrouted
  · rcases (mem_setPhase hc).mp hd with rfl | ⟨hd,hid⟩
    · cases hres
    · rcases h.kept.secured hon d hd hres with hkept | ⟨e,he,htopic,hpend⟩
      · exact Or.inl hkept
      · by_cases heid : e.id = c.id
        · -- the rejected call was the one that the others relied on
          have hsame : c.topic = d.topic := by
            rw [← htopic, s.calls.key_unique he hc heid]
          have hsec := hsafe.2 hon ⟨d,hd,hid,by simp [liveOn, hsame, hres, Phase.live]⟩
          rw [hsame] at hsec
          exact Or.inl hsec
        · exact Or.inr ⟨e,(mem_setPhase hc).mpr (Or.inr ⟨he,heid⟩),htopic,hpend⟩
  · exact h.kept.granted id topic handler a (hans.fewer _ hq) hok

theorem inv_unsubscribed (h : Inv s) (topic : String) (hsafe : PatternSafe s topic) :
    Inv { s with handlers := removePattern s.handlers topic } := by
  refine ⟨⟨h.counted.topics,h.counted.asked,h.counted.named⟩,⟨fun d hd hlive k hk => ?_⟩,
    ⟨h.kept.offline,h.kept.online,h.kept.secured,h.kept.granted,h.kept.ordered⟩⟩
  refine List.mem_filter.mpr ⟨h.routed.routed d hd hlive k hk,decide_eq_true (fun he => ?_)⟩
  have hnone := hsafe d hd (by simp [liveOn, show d.topic = topic from he, hlive])
  rw [hnone] at hk
  cases hk

/-- An answer that is safe; a granted subscription is secured by the broker
or was never answered. -/
theorem inv_callback (h : Inv s) (hr : r ∈ outstanding s) (hans : Answered s r answered lost)
    {a : Answer} (hsafe : CallbackSafe s a r)
    (hgranted : ∀ id topic handler, r = .subscribe id topic handler → subscribeError topic a = none →
      Secured s topic) :
    Inv (callback { s with answered := answered, lost := lost } r a) := by
  cases r with
  | subscribe id topic handler =>
    obtain ⟨c,hc,hpending,rfl,rfl,rfl⟩ := pending_of_asked h.counted hr
    show Inv (subscribeAnswered _ c.id c.topic c.handler a)
    unfold subscribeAnswered
    cases herror : subscribeError c.topic a with
    | none => exact inv_resolved h hc hpending hans (hgranted _ _ _ rfl herror)
    | some message =>
      exact inv_rejected h hc hpending hans (hsafe (by rw [herror]; exact Option.some_ne_none _)) message
  | unsubscribe topic =>
    have hinv := inv_answered h hans (fun _ => rfl)
    show Inv (unsubscribeAnswered _ topic a)
    unfold unsubscribeAnswered
    cases herror : a.error with
    | some message => exact hinv
    | none => exact inv_unsubscribed hinv topic (hsafe herror)
  | resubscribe topic => exact inv_answered h hans (fun _ => rfl)

end

theorem foldl_settles_keep (topic : String) (requests : List Request)
    (h : ∀ r ∈ requests, r ≠ .unsubscribe topic) :
    requests.foldl (settles topic) true = true := by
  induction requests with
  | nil => rfl
  | cons r requests ih =>
    have hfirst : settles topic true r = true :=
      settles_iff.mpr (Or.inr ⟨rfl,h r List.mem_cons_self⟩)
    rw [List.foldl_cons, hfirst]
    exact ih (fun q hq => h q (List.mem_cons_of_mem _ hq))

theorem foldl_settles_resubscribe (topic : String) (topics : List String) (b : Bool)
    (h : topic ∈ topics) : (topics.map Request.resubscribe).foldl (settles topic) b = true := by
  obtain ⟨front,back,rfl⟩ := List.append_of_mem h
  have hgranted : ∀ b, settles topic b (.resubscribe topic) = true :=
    fun b => settles_iff.mpr (Or.inl rfl)
  rw [List.map_append, List.map_cons, List.foldl_append, List.foldl_cons, hgranted]
  refine foldl_settles_keep topic _ (fun r hr => ?_)
  obtain ⟨t,-,rfl⟩ := List.mem_map.mp hr
  simp

theorem mem_taken {topic : String} {r : Request} {a : Answer}
    (h : settles topic (topic ∈ s.broker) r = true) : topic ∈ taken s.broker r a := by
  cases r with
  | subscribe call t handler =>
    have hmem : topic ∈ s.broker := of_decide_eq_true h
    unfold taken
    dsimp only
    split
    · exact List.mem_cons_of_mem _ hmem
    · exact hmem
  | unsubscribe t =>
    have hmem := settles_iff.mp h
    simp only [reduceCtorEq, ne_eq, Request.unsubscribe.injEq, false_or, decide_eq_true_eq] at hmem
    unfold taken
    dsimp only
    split
    · exact List.mem_filter.mpr ⟨hmem.1,decide_eq_true (fun he => hmem.2 he.symm)⟩
    · exact hmem.1
  | resubscribe t =>
    have hmem := settles_iff.mp h
    simp only [Request.resubscribe.injEq, ne_eq, reduceCtorEq, not_false_eq_true, and_true,
      decide_eq_true_eq] at hmem
    rcases hmem with rfl | hmem
    · exact List.mem_cons_self
    · exact List.mem_cons_of_mem _ hmem

theorem inv_take (h : Inv s) (a : Answer) : Inv (take s a) := by
  unfold take
  split
  · exact h
  · next r rest hqueue =>
    have hordered := h.kept.ordered
    rw [hqueue, List.cons_append] at hordered
    obtain ⟨hfirst,hrest⟩ := List.pairwise_cons.mp hordered
    have hcount : ∀ p : Request → Bool,
        (rest++(s.answered++[(r,a)]).map Prod.fst++(s.offline++s.lost)).countP p =
          (outstanding s).countP p := by
      intro p
      simp only [outstanding, hqueue, List.map_append, List.map_cons, List.map_nil,
        List.countP_append, List.countP_cons, List.countP_nil]
      omega
    have hsecured : ∀ topic, Secured s topic → Secured { s with
        queue := rest
        answered := s.answered++[(r,a)]
        broker := taken s.broker r a } topic := by
      intro topic hsec
      unfold Secured at hsec
      rw [hqueue] at hsec
      exact foldl_settles_mono topic rest (fun hset => decide_eq_true (mem_taken hset)) hsec
    refine ⟨⟨h.counted.topics,fun id => (hcount (asks id)).trans (h.counted.asked id),
      fun id topic handler hq => h.counted.named id topic handler ?_⟩,⟨h.routed.routed⟩,
      ⟨fun hoff => ?_,h.kept.online,fun hon c hc hres => ?_,
        fun id topic handler a' hq hok => ?_,hrest⟩⟩
    · have hpos : 0 < (outstanding s).countP (fun x => x = .subscribe id topic handler) := by
        rw [← hcount]
        exact List.countP_pos_iff.mpr ⟨_,hq,decide_eq_true rfl⟩
      obtain ⟨x,hx,heq⟩ := List.countP_pos_iff.mp hpos
      obtain rfl := of_decide_eq_true heq
      exact hx
    · have hempty := (h.kept.offline hoff).1
      rw [hqueue] at hempty
      cases hempty
    · exact (h.kept.secured hon c hc hres).imp (hsecured c.topic) id
    · rcases List.mem_append.mp hq with hq | hq
      · exact hsecured topic (h.kept.granted id topic handler a' hq hok)
      · -- the broker has just granted it, and no request behind takes it away
        obtain ⟨rfl,rfl⟩ := Prod.mk.inj (List.mem_singleton.mp hq)
        have hgranted : topic ∈ taken s.broker (.subscribe id topic handler) a' := by
          unfold taken
          dsimp only
          rw [if_pos hok]
          exact List.mem_cons_self
        unfold Secured
        rw [show decide (topic ∈ taken s.broker (.subscribe id topic handler) a') = true from
          decide_eq_true hgranted]
        exact foldl_settles_keep topic rest
          (fun q hq => hfirst q (List.mem_append_left _ hq) id topic handler rfl)

theorem inv_drop (h : Inv s) : Inv { s with
    connected := false
    lost := s.lost++s.queue++s.answered.map Prod.fst
    queue := []
    answered := [] } := by
  have hcount : ∀ p : Request → Bool,
      ([]++[]++(s.offline++(s.lost++s.queue++s.answered.map Prod.fst))).countP p =
        (outstanding s).countP p := by
    intro p
    simp only [outstanding, List.countP_append, List.countP_nil]
    omega
  refine ⟨⟨h.counted.topics,fun id => (hcount (asks id)).trans (h.counted.asked id),
    fun id topic handler hq => h.counted.named id topic handler ?_⟩,⟨h.routed.routed⟩,
    ⟨fun _ => ⟨rfl,rfl⟩,fun hon => absurd hon Bool.false_ne_true,
      fun hon => absurd hon Bool.false_ne_true,
      fun id topic handler a hq => absurd hq List.not_mem_nil,
      h.kept.ordered.sublist (List.sublist_append_right _ _)⟩⟩
  have hmem : .subscribe id topic handler ∈
      s.offline++(s.lost++s.queue++s.answered.map Prod.fst) := hq
  simp only [outstanding, List.mem_append] at hmem ⊢
  rcases hmem with hoff | (hlost | hqueue) | hans
  · exact Or.inr (Or.inl hoff)
  · exact Or.inr (Or.inr hlost)
  · exact Or.inl (Or.inl hqueue)
  · exact Or.inl (Or.inr hans)

theorem resubscribeAll_eq (hon : s.connected = true) : resubscribeAll s =
    { s with queue := s.queue++s.subscribedTopics.keys.map Request.resubscribe } := by
  have hfold : ∀ (topics : List String) (s : State), s.connected = true →
      topics.foldl (fun s topic => send s (.resubscribe topic)) s =
        { s with queue := s.queue++topics.map Request.resubscribe } := by
    intro topics
    induction topics with
    | nil =>
      intro s _
      simp
    | cons topic topics ih =>
      intro s hon
      have hsent : send s (.resubscribe topic) =
          { s with queue := s.queue++[.resubscribe topic] } := if_pos hon
      rw [List.foldl_cons, hsent]
      refine (ih { s with queue := s.queue++[.resubscribe topic] } hon).trans ?_
      simp
  exact hfold _ s hon

theorem inv_attempt (h : Inv s) : Inv { s with lost := s.lost++s.offline, offline := [] } := by
  have hcomm : (s.lost++s.offline).Perm (s.offline++s.lost) := List.perm_append_comm
  have hperm := hcomm.append_left (s.queue++s.answered.map Prod.fst)
  exact ⟨⟨h.counted.topics,fun id => (hperm.countP_eq _).trans (h.counted.asked id),
    fun id topic handler hq => h.counted.named id topic handler (hperm.mem_iff.mp hq)⟩,
    ⟨h.routed.routed⟩,
    ⟨h.kept.offline,fun _ => rfl,h.kept.secured,h.kept.granted,
      h.kept.ordered.sublist ((List.nil_sublist _).append_left _)⟩⟩

theorem inv_connect (h : Inv s) (hoff : s.connected = false) (session : List String) :
    Inv (resubscribeAll { s with
      connected := true
      queue := s.offline
      offline := []
      broker := session }) := by
  obtain ⟨hqueue,hans⟩ := h.kept.offline hoff
  rw [resubscribeAll_eq rfl]
  have hnone : ∀ p : Request → Bool, (∀ topic, p (.resubscribe topic) = false) →
      (s.subscribedTopics.keys.map Request.resubscribe).countP p = 0 := by
    intro p hp
    rw [List.countP_eq_zero]
    intro r hr
    obtain ⟨topic,-,rfl⟩ := List.mem_map.mp hr
    rw [hp]
    exact Bool.false_ne_true
  refine ⟨⟨h.counted.topics,fun id => ?_,fun id topic handler hq =>
    h.counted.named id topic handler ?_⟩,⟨h.routed.routed⟩,
    ⟨fun hf => absurd hf.symm Bool.false_ne_true,fun _ => rfl,fun _ c hc hres => Or.inl ?_,
      fun id topic handler a hq => ?_,?_⟩⟩
  · rw [← h.counted.asked id]
    simp only [outstanding, List.countP_append, hnone (asks id) (fun _ => rfl), hqueue,
      List.countP_nil]
    omega
  · have hmem : .subscribe id topic handler ∈
        (s.offline++s.subscribedTopics.keys.map Request.resubscribe)++s.answered.map Prod.fst++
          ([]++s.lost) := hq
    simp only [outstanding, List.mem_append, List.mem_map, reduceCtorEq, and_false, exists_false,
      or_false, List.not_mem_nil, false_or] at hmem ⊢
    rcases hmem with (hkept | hanswered) | hlost
    · exact Or.inr (Or.inl hkept)
    · exact Or.inl (Or.inr hanswered)
    · exact Or.inr (Or.inr hlost)
  · have hpos : 0 < liveCount s c.topic := liveCount_pos hc (by rw [hres]; rfl)
    have hget := h.counted.topics c.topic
    rw [if_neg (Nat.ne_of_gt hpos)] at hget
    have hkey : c.topic ∈ s.subscribedTopics.keys :=
      List.mem_map.mpr ⟨_,(OrderedMap.get?_eq_some_iff _ _ _).mp hget,rfl⟩
    unfold Secured
    rw [List.foldl_append]
    exact foldl_settles_resubscribe c.topic _ _ hkey
  · have hq : (.subscribe id topic handler,a) ∈ s.answered := hq
    rw [hans] at hq
    exact absurd hq List.not_mem_nil
  · show ((s.offline++s.subscribedTopics.keys.map Request.resubscribe)++[]).Pairwise _
    have hordered := h.kept.ordered
    rw [hqueue, List.nil_append] at hordered
    -- resubscriptions are no new subscriptions and take nothing away
    rw [List.append_nil, List.pairwise_append, List.pairwise_map]
    refine ⟨hordered,List.pairwise_of_forall (fun t u id topic handler heq => ?_),
      fun r _ q hq id topic handler _ => ?_⟩
    · cases heq
    · obtain ⟨t,-,rfl⟩ := List.mem_map.mp hq
      simp

theorem inv_step (h : Inv s) (e : Event) (hok : Considerate s e) : Inv (step s e) := by
  cases e with
  | subscribe topic handler => exact inv_subscribe h topic handler
  | reached call => exact inv_withCall h (fun c hc hphase => inv_register h hc hphase)
  | unreachable call message =>
    exact inv_withCall h (fun c hc hphase => inv_unreachable h hc hphase message)
  | unsubscribe call => exact inv_withCall h (fun c hc hphase => inv_unsubscribe h hc hphase)
  | take a => exact inv_take h a
  | deliver r a =>
    show Inv (if (r,a) ∈ s.answered then _ else s)
    split
    · next hr =>
      refine inv_callback h ?_ (answered_deliver hr) (hok hr) (fun id topic handler heq herror => ?_)
      · exact List.mem_append_left _ (List.mem_append_right _ (List.mem_map.mpr ⟨_,hr,rfl⟩))
      · subst heq
        exact h.kept.granted id topic handler a hr herror
    · exact h
  | fail r message =>
    show Inv (if r ∈ s.lost then _ else s)
    split
    · next hr =>
      refine inv_callback h (List.mem_append_right _ (List.mem_append_right _ hr)) (answered_fail hr) (hok hr)
        (fun id topic handler _ herror => ?_)
      cases herror
    · exact h
  | drop => exact inv_drop h
  | attempt => exact inv_attempt h
  | connect session =>
    show Inv (if s.connected = true then s else _)
    split
    · exact h
    · next hoff => exact inv_connect h (by simpa using hoff) session

theorem inv_started : Inv started where
  counted := ⟨fun _ => rfl,fun _ => rfl,fun _ _ _ hr => absurd hr List.not_mem_nil⟩
  routed := ⟨fun _ hc => absurd hc List.not_mem_nil⟩
  kept := ⟨fun _ => ⟨rfl,rfl⟩,fun _ => rfl,fun _ _ hc => absurd hc List.not_mem_nil,
    fun _ _ _ _ hr => absurd hr List.not_mem_nil,List.Pairwise.nil⟩

theorem Inv.served (h : Inv s) (hquiet : Quiet s) : Served s := by
  obtain ⟨hon,hnone⟩ := hquiet
  have hresolved : ∀ c ∈ s.calls.rows, c.phase ≠ .pending := by
    intro c hc hpending
    have hasked := h.counted.asked c.id
    rw [hnone] at hasked
    have hpos : 0 < s.calls.rows.countP (pendingAs c.id) :=
      List.countP_pos_iff.mpr ⟨c,hc,by simp [pendingAs, hpending]⟩
    rw [← hasked] at hpos
    exact absurd hpos (Nat.lt_irrefl 0)
  have hheld : ∀ topic, held s topic = liveCount s topic := by
    intro topic
    refine List.countP_congr (fun c hc => ?_)
    have hpending := hresolved c hc
    simp only [liveOn, Bool.and_eq_true, decide_eq_true_eq, live_iff]
    exact ⟨fun hres => ⟨hres.1,Or.inr hres.2⟩,fun hlive => ⟨hlive.1,hlive.2.resolve_left hpending⟩⟩
  refine ⟨fun topic => ?_,fun topic hpos => ?_,fun c hc hres => h.routed.routed c hc (by rw [hres]; rfl)⟩
  · rw [hheld]
    exact h.counted.topics topic
  · obtain ⟨c,hc,hres⟩ := List.countP_pos_iff.mp hpos
    simp only [Bool.and_eq_true, decide_eq_true_eq] at hres
    have hqueue : s.queue = [] :=
      List.append_eq_nil_iff.mp (List.append_eq_nil_iff.mp hnone).1 |>.1
    rcases h.kept.secured hon c hc hres.2 with hsec | ⟨d,hd,-,hpending⟩
    · unfold Secured at hsec
      rw [hqueue, hres.1] at hsec
      exact of_decide_eq_true hsec
    · exact absurd hpending (hresolved d hd)

end

theorem served_of_considerate (es : List Event) (hm : Meets step Considerate es started)
    (pre : List Event) (hpre : pre <+: es) (hquiet : Quiet (run step pre started)) :
    Served (run step pre started) := by
  obtain ⟨post,rfl⟩ := hpre
  have hbefore := ((meets_append step Considerate pre post started).mp hm).1
  have hinv : Inv (run step pre started) :=
    run_invariant (I := Inv) (fun s e hok h => inv_step h e hok) pre started hbefore inv_started
  exact hinv.served hquiet

def accepted : Answer := ⟨none,some [1]⟩

def refused : Answer := ⟨none,some [128]⟩

def joined : List Event :=
  [.connect [],.subscribe "t" (some 7),.take accepted,
    .deliver (.subscribe 1 "t" (some 7)) accepted,.subscribe "t" (some 8),.unsubscribe 1]

instance (s : State) : Decidable (Quiet s) := inferInstanceAs (Decidable (_ ∧ _))

theorem served_joined : Meets step Considerate joined started ∧ Quiet (run step joined started) ∧
    Served (run step joined started) := by
  have hmeets : Meets step Considerate joined started := by decide +kernel
  have hquiet : Quiet (run step joined started) := by decide +kernel
  exact ⟨hmeets,hquiet,served_of_considerate joined hmeets joined (List.prefix_refl _) hquiet⟩

/-- The second caller subscribes before the first one's unsubscription is
answered. -/
def crossed : List Event :=
  [.connect [],.subscribe "t" (some 7),.take accepted,
    .deliver (.subscribe 1 "t" (some 7)) accepted,.unsubscribe 1,.subscribe "t" (some 8),
    .take ⟨none,none⟩,.take accepted,.deliver (.unsubscribe "t") ⟨none,none⟩,
    .deliver (.subscribe 2 "t" (some 8)) accepted]

def stranded : List Event :=
  [.connect [],.subscribe "t" (some 7),.subscribe "t" (some 8),.take refused,
    .deliver (.subscribe 1 "t" (some 7)) refused]

theorem destroyed : (Quiet (run step crossed started) ∧ ¬Served (run step crossed started)) ∧
    (Quiet (run step stranded started) ∧ ¬Served (run step stranded started)) := by
  refine ⟨⟨by decide +kernel,fun h => ?_⟩,by decide +kernel,fun h => ?_⟩
  · have hcall : ∃ c ∈ (run step crossed started).calls.rows,
        c.phase = .resolved ∧ c.handler = some 8 := by decide +kernel
    have hempty : (run step crossed started).handlers = [] := by decide +kernel
    obtain ⟨c,hc,hres,hhandler⟩ := hcall
    have hrouted := h.routed c hc hres 8 hhandler
    rw [hempty] at hrouted
    exact List.not_mem_nil hrouted
  · have hsubscribed := h.subscribed "t"
    revert hsubscribed
    decide +kernel

end Iotistica.AgentSubscriptions
