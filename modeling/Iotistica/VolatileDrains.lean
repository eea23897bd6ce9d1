import Iotistica.VolatilePublishes

/-!
# Order, bound and end of the volatile queue

A failed message goes back to the front, whatever is there, and a drain asks
neither for the mode nor for an end. The queue keeps its promises when the
failed message is the oldest and there is room for it, and when a drain that
has something to do runs in direct mode with a client that does not refuse
every message on the spot.
-/

set_option autoImplicit false

namespace Iotistica.VolatilePublishes
open Iotistica.GuardedRun

def places (s : State) : List ℕ :=
  s.pendingPublishes.map Message.id++s.awaiting.map Message.id++s.confirmed++
    s.evictions.map Prod.fst

def Increasing (queue : List Message) : Prop := queue.Pairwise (fun a b => a.id < b.id)

instance (queue : List Message) : Decidable (Increasing queue) :=
  inferInstanceAs (Decidable (queue.Pairwise (fun a b => a.id < b.id)))

structure Lossless (s : State) : Prop where
  somewhere : ∀ id < s.nextId, id ∈ places s
  oldest : ∀ e ∈ s.evictions, e.2.length = maxPendingPublishes ∧ ∀ id ∈ e.2, e.1 ≤ id
  current : s.pendingPublishes ∈ s.contents
  bounded : ∀ queue ∈ s.contents, queue.length ≤ maxPendingPublishes
  ordered : ∀ queue ∈ s.contents, Increasing queue
  inflight : s.inflightPublishes = s.awaiting.length ∧ s.inflightPublishes ≤ maxInflight
  direct : ∀ mode ∈ s.passed, mode = .direct
  returned : s.returned = true

/-- A drain of `queued` messages with room for `room` in flight comes to an
end: the client does not refuse all messages from some answer on, or the
answers before have emptied the queue or filled the room. -/
def Ends (queued room : ℕ) (answers : Answers) : Prop :=
  answers.rest ≠ .failed ∨ queued ≤ answers.first.countP (· ≠ .failed) ∨
    room ≤ answers.first.count .later

def MayDrain (s : State) (queued room : ℕ) (answers : Answers) : Prop :=
  0 < queued → 0 < room → s.publishMode = .direct ∧ Ends queued room answers

def MayFail (s : State) (m : Message) : Prop :=
  s.pendingPublishes.length < maxPendingPublishes ∧ ∀ x ∈ s.pendingPublishes, m.id < x.id

def Orderly (s : State) : Event → Prop
  | .connect answers =>
      MayDrain s s.pendingPublishes.length (maxInflight-s.inflightPublishes) answers
  | .callback id err answers => ∀ m ∈ s.awaiting.find? (fun m => m.id = id),
      (err = true → MayFail s m) ∧ (online s = true →
        MayDrain s (s.pendingPublishes.length+(if err then 1 else 0))
          (maxInflight-(s.inflightPublishes-1)) answers)
  | _ => True

instance (queued room : ℕ) (answers : Answers) : Decidable (Ends queued room answers) :=
  inferInstanceAs (Decidable (_ ∨ _ ∨ _))

instance (s : State) (queued room : ℕ) (answers : Answers) :
    Decidable (MayDrain s queued room answers) :=
  inferInstanceAs (Decidable (0 < queued → 0 < room → s.publishMode = .direct ∧ _))

instance (s : State) (m : Message) : Decidable (MayFail s m) :=
  inferInstanceAs (Decidable (_ ∧ _))

instance (s : State) : (e : Event) → Decidable (Orderly s e)
  | .connect answers => inferInstanceAs
      (Decidable (MayDrain s s.pendingPublishes.length (maxInflight-s.inflightPublishes) answers))
  | .callback id err answers => inferInstanceAs
      (Decidable (∀ m ∈ s.awaiting.find? (fun m => m.id = id),
        (err = true → MayFail s m) ∧ (online s = true →
          MayDrain s (s.pendingPublishes.length+(if err then 1 else 0))
            (maxInflight-(s.inflightPublishes-1)) answers)))
  | .publish _ _ _ => .isTrue trivial
  | .setPublishMode _ => .isTrue trivial
  | .disconnect => .isTrue trivial
  | .replace _ => .isTrue trivial

section
variable {s s' : State} {answers left : Answers} {fuel : ℕ}

def Idle (s : State) : Prop := s.pendingPublishes = [] ∨ maxInflight ≤ s.inflightPublishes

theorem drainLoop_idle (h : Idle s) : drainLoop (fuel+1) answers s = some (answers,s) := by
  rw [drainLoop]
  rcases h with h | h
  · rw [h]
  · split
    · rfl
    · rw [if_neg (Nat.not_lt.mpr h)]

theorem drainLoop_busy {msg : Message} {rest : List Message} (hs : s.pendingPublishes = msg::rest)
    (hroom : s.inflightPublishes < maxInflight) : drainLoop (fuel+1) answers s =
      deliver (drainLoop fuel) answers.later (pass s rest) msg answers.answer := by
  rw [drainLoop, hs]
  exact if_pos hroom

theorem ends_later {queued room : ℕ} (h : answers.answer = .later) :
    Ends (queued+1) (room+1) answers ↔ Ends queued room answers.later := by
  obtain ⟨first,rest⟩ := answers
  cases first with
  | nil =>
    obtain rfl : rest = .later := h
    exact iff_of_true (Or.inl (by decide)) (Or.inl (by decide))
  | cons x xs =>
    obtain rfl : x = .later := h
    simp [Ends, Answers.later]

theorem ends_success {queued room : ℕ} (h : answers.answer = .success) :
    Ends (queued+1) room answers ↔ Ends queued room answers.later := by
  obtain ⟨first,rest⟩ := answers
  cases first with
  | nil =>
    obtain rfl : rest = .success := h
    exact iff_of_true (Or.inl (by decide)) (Or.inl (by decide))
  | cons x xs =>
    obtain rfl : x = .success := h
    simp [Ends, Answers.later]

theorem ends_failed {queued room : ℕ} (h : answers.answer = .failed) :
    Ends queued room answers ↔ Ends queued room answers.later := by
  obtain ⟨first,rest⟩ := answers
  cases first with
  | nil => exact Iff.rfl
  | cons x xs =>
    obtain rfl : x = .failed := h
    simp [Ends, Answers.later]

theorem first_of_failed {queued room : ℕ} (h : answers.answer = .failed)
    (hends : Ends (queued+1) (room+1) answers) :
    answers.later.first.length+1 = answers.first.length := by
  obtain ⟨first,rest⟩ := answers
  cases first with
  | nil =>
    obtain rfl : rest = .failed := h
    simp [Ends] at hends
  | cons x xs => rfl

theorem length_later (answers : Answers) : answers.later.first.length ≤ answers.first.length := by
  simp [Answers.later]

def room (s : State) : ℕ := maxInflight-s.inflightPublishes

theorem drainLoop_some (fuel : ℕ) (answers : Answers) (s : State) (hon : online s = true)
    (hends : Ends s.pendingPublishes.length (room s) answers)
    (hfuel : answers.first.length+s.pendingPublishes.length < fuel) :
    ∃ r, drainLoop fuel answers s = some r ∧ Idle r.2 := by
  induction fuel generalizing answers s with
  | zero => omega
  | succ fuel ih =>
    by_cases hidle : Idle s
    · exact ⟨_,drainLoop_idle hidle,hidle⟩
    · obtain ⟨hne,hroom⟩ := not_or.mp hidle
      obtain ⟨msg,rest,hs⟩ := List.exists_cons_of_ne_nil hne
      have hroom : s.inflightPublishes < maxInflight := Nat.lt_of_not_le hroom
      have hspace : room s = maxInflight-(s.inflightPublishes+1)+1 := by
        unfold room
        omega
      have hlater := length_later answers
      rw [drainLoop_busy hs hroom]
      rw [hs, List.length_cons] at hends hfuel
      -- what the nested drain leaves is idle, so the loop ends with it
      have hnested : ∀ (err : Bool),
          (∃ r, drainLoop fuel answers.later (published (pass s rest) msg err) = some r ∧ Idle r.2) →
          ∃ r, (guarded (drainLoop fuel) answers.later (published (pass s rest) msg err)).bind
            (fun r => drainLoop fuel r.1 r.2) = some r ∧ Idle r.2 := by
        rintro err ⟨r,hr,hidle⟩
        obtain ⟨n,rfl⟩ := Nat.exists_eq_succ_of_ne_zero (show fuel ≠ 0 by omega)
        unfold guarded
        split
        · next hstop =>
          have hempty : (published (pass s rest) msg err).pendingPublishes = [] := by
            refine hstop.resolve_right ?_
            cases err <;> simp [online, published, pass, setPending] at hon ⊢ <;> exact hon
          exact ⟨_,drainLoop_idle (Or.inl hempty),Or.inl hempty⟩
        · rw [hr]
          exact ⟨_,drainLoop_idle hidle,hidle⟩
      cases ha : answers.answer with
      | later =>
        rw [hspace, ends_later ha] at hends
        refine ih answers.later (keep (pass s rest) msg) hon hends ?_
        show answers.later.first.length+rest.length < fuel
        omega
      | success =>
        rw [ends_success ha] at hends
        refine hnested false (ih answers.later _ hon hends ?_)
        show answers.later.first.length+rest.length < fuel
        omega
      | failed =>
        rw [hspace] at hends
        have hfirst := first_of_failed ha hends
        rw [ends_failed ha, ← hspace] at hends
        refine hnested true (ih answers.later _ hon hends ?_)
        show answers.later.first.length+(rest.length+1) < fuel
        omega

theorem drainLoop_none (fuel : ℕ) (answers : Answers) (s : State) (hon : online s = true)
    (hends : ¬Ends s.pendingPublishes.length (room s) answers) :
    drainLoop fuel answers s = none := by
  induction fuel generalizing answers s with
  | zero => rfl
  | succ fuel ih =>
    have hbusy := not_or.mp hends
    have hfull := (not_or.mp hbusy.2)
    obtain ⟨msg,rest,hs⟩ := List.exists_cons_of_length_pos
      (Nat.lt_of_not_le (fun h => hfull.1 (Nat.le_trans h (Nat.zero_le _))))
    have hspace : room s = maxInflight-(s.inflightPublishes+1)+1 := by
      have hpos : 0 < room s := Nat.lt_of_not_le (fun h => hfull.2 (Nat.le_trans h (Nat.zero_le _)))
      unfold room at hpos ⊢
      omega
    have hroom : s.inflightPublishes < maxInflight := by
      unfold room at hspace
      omega
    rw [drainLoop_busy hs hroom]
    rw [hs, List.length_cons] at hends
    have hnested : ∀ (err : Bool), (published (pass s rest) msg err).pendingPublishes ≠ [] →
        drainLoop fuel answers.later (published (pass s rest) msg err) = none →
        (guarded (drainLoop fuel) answers.later (published (pass s rest) msg err)).bind
          (fun r => drainLoop fuel r.1 r.2) = none := by
      intro err hne hnone
      have hon' : online (published (pass s rest) msg err) = true := by
        cases err
        · exact hon
        · exact hon
      unfold guarded
      rw [if_neg (not_or.mpr ⟨hne,by simp [hon']⟩), hnone]
      rfl
    cases ha : answers.answer with
    | later =>
      rw [hspace, ends_later ha] at hends
      exact ih answers.later (keep (pass s rest) msg) hon hends
    | success =>
      rw [ends_success ha] at hends
      refine hnested false ?_ (ih answers.later _ hon hends)
      rintro (hnil : rest = [])
      rw [hnil] at hends
      exact hends (Or.inr (Or.inl (Nat.zero_le _)))
    | failed =>
      rw [ends_failed ha] at hends
      exact hnested true (List.cons_ne_nil msg rest) (ih answers.later _ hon hends)

theorem drainLoop_keeps {P : State → Prop}
    (hlater : ∀ s msg rest, P s → s.pendingPublishes = msg::rest →
      s.inflightPublishes < maxInflight → P (keep (pass s rest) msg))
    (hsync : ∀ s msg rest err, P s → s.pendingPublishes = msg::rest →
      s.inflightPublishes < maxInflight → P (published (pass s rest) msg err))
    (fuel : ℕ) (answers : Answers) (s : State) {r : Answers × State}
    (hrun : drainLoop fuel answers s = some r) (h : P s) : P r.2 := by
  induction fuel generalizing answers s r with
  | zero => cases hrun
  | succ fuel ih =>
    by_cases hidle : Idle s
    · rw [drainLoop_idle hidle] at hrun
      obtain rfl := Option.some.inj hrun
      exact h
    · obtain ⟨hne,hroom⟩ := not_or.mp hidle
      obtain ⟨msg,rest,hs⟩ := List.exists_cons_of_ne_nil hne
      have hroom : s.inflightPublishes < maxInflight := Nat.lt_of_not_le hroom
      rw [drainLoop_busy hs hroom] at hrun
      have hnested : ∀ err, (guarded (drainLoop fuel) answers.later
          (published (pass s rest) msg err)).bind (fun r => drainLoop fuel r.1 r.2) = some r →
          P r.2 := by
        intro err hbind
        obtain ⟨mid,hmid,hlast⟩ := Option.bind_eq_some_iff.mp hbind
        refine ih mid.1 mid.2 hlast ?_
        have hstart := hsync s msg rest err h hs hroom
        unfold guarded at hmid
        split at hmid
        · obtain rfl := Option.some.inj hmid
          exact hstart
        · exact ih _ _ hmid hstart
      cases ha : answers.answer with
      | later =>
        rw [ha] at hrun
        exact ih _ _ hrun (hlater s msg rest h hs hroom)
      | success =>
        rw [ha] at hrun
        exact hnested false hrun
      | failed =>
        rw [ha] at hrun
        exact hnested true hrun

theorem drained_some (hon : online s = true) (hne : s.pendingPublishes ≠ [])
    (hends : Ends s.pendingPublishes.length (room s) answers) :
    ∃ r, drainLoop (drainFuel answers s) answers s = some r ∧ Idle r.2 ∧ drained answers s = r.2 := by
  obtain ⟨r,hr,hidle⟩ :=
    drainLoop_some (drainFuel answers s) answers s hon hends (Nat.lt_succ_self _)
  refine ⟨r,hr,hidle,?_⟩
  unfold drained drainBatch guarded
  rw [if_neg (not_or.mpr ⟨hne,by simp [hon]⟩), hr]

theorem drained_stopped (h : Idle s ∨ online s = false) : drained answers s = s := by
  unfold drained drainBatch guarded
  split
  · next s' hs =>
    split at hs
    · obtain rfl := congrArg Prod.snd (Option.some.inj hs)
      rfl
    · next hgo =>
      have hidle : Idle s := h.resolve_right (fun hoff => hgo (Or.inr hoff))
      rw [show drainFuel answers s = _+1 from rfl, drainLoop_idle hidle] at hs
      obtain rfl := congrArg Prod.snd (Option.some.inj hs)
      rfl
  · next hs =>
    split at hs
    · cases hs
    · next hgo =>
      have hidle : Idle s := h.resolve_right (fun hoff => hgo (Or.inr hoff))
      rw [show drainFuel answers s = _+1 from rfl, drainLoop_idle hidle] at hs
      cases hs

theorem drained_endless (hon : online s = true)
    (hends : ¬Ends s.pendingPublishes.length (room s) answers) :
    (drained answers s).returned = false := by
  have hne : s.pendingPublishes ≠ [] := by
    intro hnil
    rw [hnil] at hends
    exact hends (Or.inr (Or.inl (Nat.zero_le _)))
  unfold drained drainBatch guarded
  rw [if_neg (not_or.mpr ⟨hne,by simp [hon]⟩), drainLoop_none _ answers s hon hends]

/-- No amount of fuel helps a drain that does not end. -/
theorem drainBatch_isSome_iff (hon : online s = true) :
    (∃ fuel, (drainBatch fuel answers s).isSome) ↔
      Ends s.pendingPublishes.length (room s) answers := by
  constructor
  · rintro ⟨fuel,hsome⟩
    by_contra hends
    have hne : s.pendingPublishes ≠ [] := by
      intro hnil
      rw [hnil] at hends
      exact hends (Or.inr (Or.inl (Nat.zero_le _)))
    unfold drainBatch guarded at hsome
    rw [if_neg (not_or.mpr ⟨hne,by simp [hon]⟩), drainLoop_none _ answers s hon hends] at hsome
    cases hsome
  · intro hends
    obtain ⟨r,hr,-⟩ :=
      drainLoop_some (drainFuel answers s) answers s hon hends (Nat.lt_succ_self _)
    refine ⟨drainFuel answers s,?_⟩
    unfold drainBatch guarded
    split
    · rfl
    · exact Option.isSome_iff_exists.mpr ⟨r,hr⟩

end

def refused : State :=
  setPending { started with client := true, connected := true } [⟨0,"t","a",none⟩]

theorem drainBatch_isSome_iff_refused :
    (∃ fuel, (drainBatch fuel ⟨[],.failed⟩ refused).isSome) ↔ Ends 1 10 ⟨[],.failed⟩ :=
  drainBatch_isSome_iff rfl

structure Inv (s : State) : Prop where
  lossless : Lossless s
  known : ∀ m ∈ s.pendingPublishes++s.awaiting, m.id < s.nextId

section
variable {s : State} {msg : Message} {rest : List Message}

theorem mem_places {id : ℕ} : id ∈ places s ↔
    (∃ m ∈ s.pendingPublishes, m.id = id) ∨ (∃ m ∈ s.awaiting, m.id = id) ∨ id ∈ s.confirmed ∨
      ∃ e ∈ s.evictions, e.1 = id := by
  simp only [places, List.mem_append, List.mem_map, or_assoc]

structure Handed (s : State) (msg : Message) : Prop where
  somewhere : ∀ id < s.nextId, id = msg.id ∨ id ∈ places s
  oldest : ∀ e ∈ s.evictions, e.2.length = maxPendingPublishes ∧ ∀ id ∈ e.2, e.1 ≤ id
  current : s.pendingPublishes ∈ s.contents
  bounded : ∀ queue ∈ s.contents, queue.length ≤ maxPendingPublishes
  ordered : ∀ queue ∈ s.contents, Increasing queue
  inflight : s.inflightPublishes = s.awaiting.length+1 ∧ s.inflightPublishes ≤ maxInflight
  direct : ∀ mode ∈ s.passed, mode = .direct
  returned : s.returned = true
  known : msg.id < s.nextId ∧ ∀ m ∈ s.pendingPublishes++s.awaiting, m.id < s.nextId

theorem handed_pass (h : Inv s) (hmode : s.publishMode = .direct)
    (hs : s.pendingPublishes = msg::rest) (hroom : s.inflightPublishes < maxInflight) :
    Handed (pass s rest) msg := by
  obtain ⟨⟨hsome,holdest,hcurrent,hbounded,hordered,⟨hcount,-⟩,hdirect,hreturned⟩,hknown⟩ := h
  rw [hs] at hcurrent hknown
  refine ⟨fun id hid => ?_,holdest,List.mem_cons_self,fun queue hq => ?_,fun queue hq => ?_,
    ⟨congrArg (·+1) hcount,hroom⟩,fun mode hmem => ?_,hreturned,
    hknown msg List.mem_cons_self,fun m hm => hknown m (List.mem_cons_of_mem _ hm)⟩
  · have hplace := mem_places.mp (hsome id hid)
    rw [hs] at hplace
    rcases hplace with ⟨m,hm,rfl⟩ | hrest
    · rcases List.mem_cons.mp hm with rfl | hm
      · exact Or.inl rfl
      · exact Or.inr (mem_places.mpr (Or.inl ⟨m,hm,rfl⟩))
    · exact Or.inr (mem_places.mpr (Or.inr hrest))
  · rcases List.mem_cons.mp hq with rfl | hq
    · exact Nat.le_of_succ_le (hbounded _ hcurrent)
    · exact hbounded queue hq
  · rcases List.mem_cons.mp hq with rfl | hq
    · exact (List.pairwise_cons.mp (hordered _ hcurrent)).2
    · exact hordered queue hq
  · rcases List.mem_cons.mp hmem with rfl | hmem
    · exact hmode
    · exact hdirect mode hmem

theorem handed_erase (h : Inv s) (hm : msg ∈ s.awaiting) :
    Handed { s with awaiting := s.awaiting.erase msg } msg := by
  obtain ⟨⟨hsome,holdest,hcurrent,hbounded,hordered,⟨hcount,hmax⟩,hdirect,hreturned⟩,hknown⟩ := h
  have hlen := List.length_erase_of_mem hm
  have hpos := List.length_pos_of_mem hm
  refine ⟨fun id hid => ?_,holdest,hcurrent,hbounded,hordered,⟨?_,hmax⟩,hdirect,hreturned,
    hknown msg (List.mem_append_right _ hm),fun m hm' => hknown m ?_⟩
  · rcases mem_places.mp (hsome id hid) with hpending | ⟨m,hmem,rfl⟩ | hrest
    · exact Or.inr (mem_places.mpr (Or.inl hpending))
    · by_cases hne : m = msg
      · exact Or.inl (congrArg Message.id hne)
      · exact Or.inr (mem_places.mpr (Or.inr (Or.inl
          ⟨m,(List.mem_erase_of_ne hne).mpr hmem,rfl⟩)))
    · exact Or.inr (mem_places.mpr (Or.inr (Or.inr hrest)))
  · show s.inflightPublishes = (s.awaiting.erase msg).length+1
    omega
  · rcases List.mem_append.mp hm' with hm' | hm'
    · exact List.mem_append_left _ hm'
    · exact List.mem_append_right _ (List.mem_of_mem_erase hm')

theorem inv_keep (h : Handed s msg) : Inv (keep s msg) := by
  obtain ⟨hsome,holdest,hcurrent,hbounded,hordered,⟨hcount,hmax⟩,hdirect,hreturned,hid,hknown⟩ := h
  refine ⟨⟨fun id hlt => mem_places.mpr ?_,holdest,hcurrent,hbounded,hordered,⟨?_,hmax⟩,hdirect,
    hreturned⟩,fun m hm => ?_⟩
  · rcases hsome id hlt with rfl | hplace
    · exact Or.inr (Or.inl ⟨msg,List.mem_append_right _ (List.mem_singleton.mpr rfl),rfl⟩)
    · rcases mem_places.mp hplace with hpending | ⟨m,hm,rfl⟩ | hrest
      · exact Or.inl hpending
      · exact Or.inr (Or.inl ⟨m,List.mem_append_left _ hm,rfl⟩)
      · exact Or.inr (Or.inr hrest)
  · show s.inflightPublishes = (s.awaiting++[msg]).length
    rw [hcount, List.length_append]
    rfl
  · rcases List.mem_append.mp hm with hm | hm
    · exact hknown m (List.mem_append_left _ hm)
    · rcases List.mem_append.mp hm with hm | hm
      · exact hknown m (List.mem_append_right _ hm)
      · obtain rfl := List.mem_singleton.mp hm
        exact hid

theorem inv_published (h : Handed s msg) {err : Bool} (hfail : err = true → MayFail s msg) :
    Inv (published s msg err) := by
  obtain ⟨hsome,holdest,hcurrent,hbounded,hordered,⟨hcount,hmax⟩,hdirect,hreturned,hid,hknown⟩ := h
  have hreleased : s.inflightPublishes-1 = s.awaiting.length ∧ s.inflightPublishes-1 ≤ maxInflight := by
    omega
  cases err with
  | false =>
    refine ⟨⟨fun id hlt => mem_places.mpr ?_,holdest,hcurrent,hbounded,hordered,hreleased,hdirect,
      hreturned⟩,hknown⟩
    rcases hsome id hlt with rfl | hplace
    · exact Or.inr (Or.inr (Or.inl List.mem_cons_self))
    · rcases mem_places.mp hplace with hpending | hawaiting | hconfirmed | hevicted
      · exact Or.inl hpending
      · exact Or.inr (Or.inl hawaiting)
      · exact Or.inr (Or.inr (Or.inl (List.mem_cons_of_mem _ hconfirmed)))
      · exact Or.inr (Or.inr (Or.inr hevicted))
  | true =>
    obtain ⟨hspace,hyoung⟩ := hfail rfl
    refine ⟨⟨fun id hlt => mem_places.mpr ?_,holdest,List.mem_cons_self,fun queue hq => ?_,
      fun queue hq => ?_,hreleased,hdirect,hreturned⟩,fun m hm => ?_⟩
    · rcases hsome id hlt with rfl | hplace
      · exact Or.inl ⟨msg,List.mem_cons_self,rfl⟩
      · rcases mem_places.mp hplace with ⟨m,hm,rfl⟩ | hrest
        · exact Or.inl ⟨m,List.mem_cons_of_mem _ hm,rfl⟩
        · exact Or.inr hrest
    · rcases List.mem_cons.mp hq with rfl | hq
      · exact hspace
      · exact hbounded queue hq
    · rcases List.mem_cons.mp hq with rfl | hq
      · exact List.pairwise_cons.mpr ⟨hyoung,hordered _ hcurrent⟩
      · exact hordered queue hq
    · rcases List.mem_cons.mp hm with rfl | hm
      · exact hid
      · exact hknown m hm

theorem mayFail_pass (h : Inv s) (hs : s.pendingPublishes = msg::rest) :
    MayFail (pass s rest) msg := by
  have hcurrent := h.lossless.current
  rw [hs] at hcurrent
  exact ⟨h.lossless.bounded _ hcurrent,(List.pairwise_cons.mp (h.lossless.ordered _ hcurrent)).1⟩

theorem room_pos (h : ¬Idle s) : 0 < s.pendingPublishes.length ∧ 0 < room s := by
  obtain ⟨hne,hroom⟩ := not_or.mp h
  refine ⟨List.length_pos_of_ne_nil hne,?_⟩
  unfold room
  omega

theorem inv_drained (h : Inv s) {answers : Answers}
    (hok : online s = true → MayDrain s s.pendingPublishes.length (room s) answers) :
    Inv (drained answers s) := by
  by_cases hstop : Idle s ∨ online s = false
  · rw [drained_stopped hstop]
    exact h
  · obtain ⟨hidle,hon⟩ := not_or.mp hstop
    have hon : online s = true := by simpa using hon
    have hpos := room_pos hidle
    obtain ⟨hmode,hends⟩ := hok hon hpos.1 hpos.2
    obtain ⟨r,hr,-,hdrained⟩ := drained_some hon (not_or.mp hidle).1 hends
    rw [hdrained]
    refine (drainLoop_keeps (P := fun s => Inv s ∧ s.publishMode = .direct) ?_ ?_ _ _ _ hr
      ⟨h,hmode⟩).1
    · rintro s msg rest ⟨h,hmode⟩ hs hroom
      exact ⟨inv_keep (handed_pass h hmode hs hroom),hmode⟩
    · rintro s msg rest err ⟨h,hmode⟩ hs hroom
      refine ⟨inv_published (handed_pass h hmode hs hroom) (fun _ => mayFail_pass h hs),?_⟩
      cases err
      · exact hmode
      · exact hmode

theorem Inv.flags (h : Inv s) (client connected : Bool) (mode : PublishMode) :
    Inv { s with client := client, connected := connected, publishMode := mode } := by
  obtain ⟨⟨hsome,holdest,hcurrent,hbounded,hordered,hinflight,hdirect,hreturned⟩,hknown⟩ := h
  exact ⟨⟨hsome,holdest,hcurrent,hbounded,hordered,hinflight,hdirect,hreturned⟩,hknown⟩

theorem inv_shiftFull (h : Inv s) : Inv (shiftFull s) ∧
    (shiftFull s).pendingPublishes.length < maxPendingPublishes := by
  unfold shiftFull
  cases hs : s.pendingPublishes with
  | nil =>
    refine ⟨h,?_⟩
    rw [hs]
    decide
  | cons m rest =>
    have hcurrent := h.lossless.current
    rw [hs] at hcurrent
    have hlen := h.lossless.bounded _ hcurrent
    have hsorted := h.lossless.ordered _ hcurrent
    dsimp only
    split
    · next hfull =>
      obtain ⟨⟨hsome,holdest,-,hbounded,hordered,hinflight,hdirect,hreturned⟩,hknown⟩ := h
      refine ⟨⟨⟨fun id hid => mem_places.mpr ?_,fun e he => ?_,List.mem_cons_self,
        fun queue hq => ?_,fun queue hq => ?_,hinflight,hdirect,hreturned⟩,fun x hx => ?_⟩,?_⟩
      · have hplace := mem_places.mp (hsome id hid)
        rw [hs] at hplace
        rcases hplace with ⟨x,hx,rfl⟩ | hawaiting | hconfirmed | ⟨e,he,rfl⟩
        · rcases List.mem_cons.mp hx with rfl | hx
          · exact Or.inr (Or.inr (Or.inr ⟨_,List.mem_cons_self,rfl⟩))
          · exact Or.inl ⟨x,hx,rfl⟩
        · exact Or.inr (Or.inl hawaiting)
        · exact Or.inr (Or.inr (Or.inl hconfirmed))
        · exact Or.inr (Or.inr (Or.inr ⟨e,List.mem_cons_of_mem _ he,rfl⟩))
      · rcases List.mem_cons.mp he with rfl | he
        · refine ⟨?_,fun id hid => ?_⟩
          · show ((m::rest).map Message.id).length = maxPendingPublishes
            rw [List.length_map]
            exact Nat.le_antisymm hlen hfull
          · obtain ⟨x,hx,rfl⟩ := List.mem_map.mp hid
            rcases List.mem_cons.mp hx with rfl | hx
            · exact Nat.le_refl _
            · exact Nat.le_of_lt ((List.pairwise_cons.mp hsorted).1 x hx)
        · exact holdest e he
      · rcases List.mem_cons.mp hq with rfl | hq
        · exact Nat.le_of_succ_le hlen
        · exact hbounded queue hq
      · rcases List.mem_cons.mp hq with rfl | hq
        · exact (List.pairwise_cons.mp hsorted).2
        · exact hordered queue hq
      · refine hknown x ?_
        rw [hs]
        exact List.mem_cons_of_mem _ hx
      · exact hlen
    · next hfree =>
      refine ⟨h,?_⟩
      rw [hs]
      exact Nat.lt_of_not_le hfree

theorem inv_enqueuePending (h : Inv s) (topic payload : String) (options : Option PublishOptions) :
    Inv (enqueuePending s topic payload options) := by
  obtain ⟨hshifted,hspace⟩ := inv_shiftFull h
  unfold enqueuePending
  obtain ⟨⟨hsome,holdest,hcurrent,hbounded,hordered,hinflight,hdirect,hreturned⟩,hknown⟩ := hshifted
  refine ⟨⟨fun id hid => mem_places.mpr ?_,holdest,List.mem_cons_self,fun queue hq => ?_,
    fun queue hq => ?_,hinflight,hdirect,hreturned⟩,fun x hx => ?_⟩
  · rcases Nat.lt_or_eq_of_le (Nat.le_of_lt_succ hid) with hold | rfl
    · rcases mem_places.mp (hsome id hold) with ⟨x,hx,rfl⟩ | hrest
      · exact Or.inl ⟨x,List.mem_append_left _ hx,rfl⟩
      · exact Or.inr hrest
    · exact Or.inl ⟨_,List.mem_append_right _ (List.mem_singleton.mpr rfl),rfl⟩
  · rcases List.mem_cons.mp hq with rfl | hq
    · rw [List.length_append]
      exact hspace
    · exact hbounded queue hq
  · rcases List.mem_cons.mp hq with rfl | hq
    · refine List.pairwise_append.mpr ⟨hordered _ hcurrent,List.pairwise_singleton _ _,
        fun a ha b hb => ?_⟩
      obtain rfl := List.mem_singleton.mp hb
      exact hknown a (List.mem_append_left _ ha)
    · exact hordered queue hq
  · show x.id < (shiftFull s).nextId+1
    rcases List.mem_append.mp hx with hx | hx
    · rcases List.mem_append.mp hx with hx | hx
      · exact Nat.lt_succ_of_lt (hknown x (List.mem_append_left _ hx))
      · obtain rfl := List.mem_singleton.mp hx
        exact Nat.lt_succ_self _
    · exact Nat.lt_succ_of_lt (hknown x (List.mem_append_right _ hx))

theorem inv_publish (h : Inv s) (topic payload : String) (options : Option PublishOptions) :
    Inv (publish s topic payload options) := by
  unfold publish
  split
  · exact inv_enqueuePending h topic payload options
  · split
    · exact inv_enqueuePending h topic payload options
    · next hmode =>
      obtain ⟨⟨hsome,holdest,hcurrent,hbounded,hordered,hinflight,hdirect,hreturned⟩,hknown⟩ := h
      refine ⟨⟨hsome,holdest,hcurrent,hbounded,hordered,hinflight,fun mode hm => ?_,hreturned⟩,hknown⟩
      rcases List.mem_cons.mp hm with rfl | hm
      · exact not_not.mp hmode
      · exact hdirect mode hm

theorem inv_callback (h : Inv s) {id : ℕ} {err : Bool} {answers : Answers}
    (hok : Orderly s (.callback id err answers)) : Inv (callback s id err answers) := by
  unfold callback
  cases hfind : s.awaiting.find? (fun m => m.id = id) with
  | none => exact h
  | some m =>
    obtain ⟨hfail,hdrain⟩ := hok m hfind
    have hm := List.mem_of_find?_eq_some hfind
    refine inv_drained (inv_published (handed_erase h hm) hfail) (fun hon => ?_)
    cases err
    · exact hdrain hon
    · exact hdrain hon

theorem inv_step (h : Inv s) (e : Event) (hok : Orderly s e) : Inv (step s e) := by
  unfold step
  rw [if_pos h.lossless.returned]
  cases e with
  | publish topic payload options => exact inv_publish h topic payload options
  | setPublishMode mode => exact h.flags s.client s.connected mode
  | connect answers =>
    have hflags := h.flags true true s.publishMode
    show Inv (drainPendingPublishes { s with client := true, connected := true } answers)
    unfold drainPendingPublishes
    split
    · exact hflags
    · exact inv_drained hflags (fun _ => hok)
  | disconnect => exact h.flags s.client false s.publishMode
  | replace client => exact h.flags client s.connected s.publishMode
  | callback id err answers => exact inv_callback h hok

theorem inv_started : Inv started where
  lossless := {
    somewhere := fun _ hid => absurd hid (Nat.not_lt_zero _)
    oldest := fun _ he => absurd he List.not_mem_nil
    current := List.mem_singleton.mpr rfl
    bounded := fun queue hq => by
      obtain rfl := List.mem_singleton.mp hq
      exact Nat.zero_le _
    ordered := fun queue hq => by
      obtain rfl := List.mem_singleton.mp hq
      exact List.Pairwise.nil
    inflight := ⟨rfl,Nat.zero_le _⟩
    direct := fun _ hm => absurd hm List.not_mem_nil
    returned := rfl }
  known := fun _ hm => absurd hm List.not_mem_nil

theorem contents_drained (answers : Answers) (s : State) :
    ∀ queue ∈ s.contents, queue ∈ (drained answers s).contents := by
  intro queue hq
  by_cases hstop : Idle s ∨ online s = false
  · rw [drained_stopped hstop]
    exact hq
  · unfold drained drainBatch guarded
    rw [if_neg (fun h => hstop (h.imp Or.inl id))]
    cases hr : drainLoop (drainFuel answers s) answers s with
    | none => exact hq
    | some r =>
      refine drainLoop_keeps (P := fun x => queue ∈ x.contents) ?_ ?_ _ _ _ hr hq
      · rintro x msg rest hx - -
        exact List.mem_cons_of_mem _ hx
      · rintro x msg rest err hx - -
        cases err
        · exact List.mem_cons_of_mem _ hx
        · exact List.mem_cons_of_mem _ (List.mem_cons_of_mem _ hx)

theorem mayDrain_of_lossless {answers : Answers} (hon : online s = true)
    (h : Lossless (drained answers s)) :
    MayDrain s s.pendingPublishes.length (room s) answers := by
  intro hqueued hroom
  have hne : s.pendingPublishes ≠ [] := List.ne_nil_of_length_pos hqueued
  have hends : Ends s.pendingPublishes.length (room s) answers := by
    by_contra hends
    have hreturned := h.returned
    rw [drained_endless hon hends] at hreturned
    cases hreturned
  refine ⟨?_,hends⟩
  obtain ⟨r,hr,hidle,hdrained⟩ := drained_some hon hne hends
  -- the first message is passed on in the mode of the start
  have hpassed : r.2.publishMode = s.publishMode ∧ (s.publishMode ∈ r.2.passed ∨ r.2 = s) := by
    refine drainLoop_keeps
      (P := fun x => x.publishMode = s.publishMode ∧ (s.publishMode ∈ x.passed ∨ x = s))
      ?_ ?_ _ _ _ hr ⟨rfl,Or.inr rfl⟩
    · rintro x msg rest ⟨hmode,-⟩ - -
      refine ⟨hmode,Or.inl ?_⟩
      show s.publishMode ∈ x.publishMode::x.passed
      rw [hmode]
      exact List.mem_cons_self
    · rintro x msg rest err ⟨hmode,-⟩ - -
      have hfirst : s.publishMode ∈ x.publishMode::x.passed := by
        rw [hmode]
        exact List.mem_cons_self
      cases err
      · exact ⟨hmode,Or.inl hfirst⟩
      · exact ⟨hmode,Or.inl hfirst⟩
  rcases hpassed.2 with hmem | hsame
  · rw [hdrained] at h
    exact h.direct _ hmem
  · rw [hsame] at hidle
    unfold room at hroom
    exact absurd hidle (not_or.mpr ⟨hne,by omega⟩)

theorem orderly_of_lossless (h : Inv s) (e : Event) (hnext : Lossless (step s e)) : Orderly s e := by
  unfold step at hnext
  rw [if_pos h.lossless.returned] at hnext
  cases e with
  | connect answers =>
    intro hqueued hroom
    have hdrained : Lossless (drained answers { s with client := true, connected := true }) := by
      have hopen : Lossless (drainPendingPublishes { s with client := true, connected := true } answers) :=
        hnext
      unfold drainPendingPublishes at hopen
      rw [if_neg (List.ne_nil_of_length_pos hqueued)] at hopen
      exact hopen
    exact mayDrain_of_lossless (s := { s with client := true, connected := true }) rfl hdrained
      hqueued hroom
  | callback id err answers =>
    intro m hfind
    have hcalled : Lossless
        (drained answers (published { s with awaiting := s.awaiting.erase m } m err)) := by
      have hcall : Lossless (callback s id err answers) := hnext
      unfold callback at hcall
      rw [Option.mem_def.mp hfind] at hcall
      exact hcall
    refine ⟨fun herr => ?_,fun hon => ?_⟩
    · subst herr
      have hmem := contents_drained answers
        (published { s with awaiting := s.awaiting.erase m } m true) _ List.mem_cons_self
      exact ⟨hcalled.bounded _ hmem,(List.pairwise_cons.mp (hcalled.ordered _ hmem)).1⟩
    · cases err
      · exact mayDrain_of_lossless (s := published { s with awaiting := s.awaiting.erase m } m false)
          hon hcalled
      · exact mayDrain_of_lossless (s := published { s with awaiting := s.awaiting.erase m } m true)
          hon hcalled
  | publish topic payload options => trivial
  | setPublishMode mode => trivial
  | disconnect => trivial
  | replace client => trivial

end

theorem lossless_iff (es : List Event) :
    (∀ pre, pre <+: es → Lossless (run step pre started)) ↔ Meets step Orderly es started :=
  always_iff_meets_of_inv (I := Inv) (P := Lossless) (fun _ e h hok => inv_step h e hok)
    (fun _ h => h.lossless) (fun _ e h hnext => orderly_of_lossless h e hnext) es started inv_started

/-- Both messages are with the client when it loses the connection, and both
fail. -/
def bothFail : List Event :=
  [.publish "t" "a" none,.publish "t" "b" none,.connect ⟨[],.later⟩,.disconnect,
    .callback 0 true ⟨[],.later⟩,.callback 1 true ⟨[],.later⟩]

theorem failures_turn_order :
    (run step bothFail started).pendingPublishes.map Message.id = [1,0] ∧
      ¬Lossless (run step bothFail started) := by
  refine ⟨by decide +kernel,fun h => ?_⟩
  have hordered := h.ordered _ h.current
  revert hordered
  decide +kernel

end Iotistica.VolatilePublishes
