import Iotistica.Reconciler

/-!
# Requests for a reconciliation

A request that meets a loop is left in its pending flag, and one that meets
none in the timer. It is lost exactly where a pass throws: `reconcile` leaves
its loop without a look at the flag.
-/

set_option autoImplicit false

namespace Iotistica.Reconciler
open Iotistica Iotistica.GuardedRun

/-- The loop will start another pass, or the one under way was started with
the newest apps and comes to the config next. -/
def LoopServes (s : StateManager) (p : Pass) : Prop :=
  (p.stage ≠ .settled true ∧ s.pendingReconcile = true) ∨
    (p.stage = .containers ∧ p.apps = s.targetState)

/-- The newest target has been handed on as a whole, or a timer, a `setTarget`
under way or the loop will see to it. -/
def Served (s : StateManager) : Prop :=
  s.handed = s.targetState ∨ s.reconcileTimer = true ∨ 0 < s.saves ∨
    ∃ p ∈ s.pass, LoopServes s p

/-- What is left of a request when the loop gives up with `saves` calls of
`setTarget` still to go on. -/
def Spared (s : StateManager) (saves : ℕ) : Prop :=
  s.handed = s.targetState ∨ s.reconcileTimer = true ∨ 0 < saves

/-- A pass throws only if the loop is not needed, and no `setTarget` puts its
request to a loop that is about to leave. -/
def Heeded (s : StateManager) : Event → Prop
  | .passThrows => (∃ p ∈ s.pass, p.stage.running = true) → Spared s s.saves
  | .saveDone => (∃ p ∈ s.pass, p.stage = .settled true) → 0 < s.saves → Spared s (s.saves-1)
  | _ => True

instance (s : StateManager) (p : Pass) : Decidable (LoopServes s p) :=
  inferInstanceAs (Decidable ((_ ∧ _) ∨ (_ ∧ _)))

instance (s : StateManager) : Decidable (Served s) :=
  inferInstanceAs (Decidable (_ ∨ _ ∨ _ ∨ ∃ p ∈ s.pass, LoopServes s p))

instance (s : StateManager) (saves : ℕ) : Decidable (Spared s saves) :=
  inferInstanceAs (Decidable (_ ∨ _ ∨ _))

instance (s : StateManager) : (e : Event) → Decidable (Heeded s e)
  | .passThrows => inferInstanceAs (Decidable ((∃ p ∈ s.pass, p.stage.running = true) → Spared s s.saves))
  | .saveDone => inferInstanceAs (Decidable
      ((∃ p ∈ s.pass, p.stage = .settled true) → 0 < s.saves → Spared s (s.saves-1)))
  | .setTarget => .isTrue trivial
  | .reconcile => .isTrue trivial
  | .timerFired => .isTrue trivial
  | .containersDone => .isTrue trivial
  | .configDone _ => .isTrue trivial
  | .versionDone => .isTrue trivial
  | .checkpointDone => .isTrue trivial
  | .loopContinues => .isTrue trivial

def Busy (s : StateManager) : Prop := s.isReconciling = s.pass.isSome

theorem busy_ite {c : Prop} [Decidable c] {s t : StateManager} (hs : Busy s) (ht : Busy t) :
    Busy (if c then s else t) := by
  split
  · exact hs
  · exact ht

theorem busy_reconcile (s : StateManager) (h : Busy s) : Busy (reconcile s) := busy_ite h rfl

theorem busy_saveDone (s : StateManager) (h : Busy s) : Busy (saveDone s) :=
  busy_ite h (busy_ite h h)

theorem busy_timerFired (s : StateManager) (h : Busy s) : Busy (timerFired s) :=
  busy_ite (busy_reconcile _ h) h

theorem busy_loopContinues (s : StateManager) (threw : Bool) : Busy (loopContinues s threw) :=
  busy_ite rfl rfl

theorem busy_advance (s : StateManager) (p : Pass) (e : Event) (hp : s.pass = some p)
    (h : Busy s) : Busy (advance s p e) := by
  have hat : ∀ stage, Busy (atStage s p stage) := by
    intro stage
    rw [Busy, hp] at h
    exact h
  cases e with
  | containersDone =>
    refine busy_ite ?_ h
    rw [Busy, hp] at h
    exact h
  | configDone isApplying =>
    refine busy_ite (busy_ite ?_ (hat _)) h
    rw [Busy, hp] at h
    exact h
  | versionDone => exact busy_ite (hat _) h
  | checkpointDone => exact busy_ite (hat _) h
  | passThrows => exact busy_ite (hat _) h
  | loopContinues =>
    rw [advance]
    split
    · exact busy_loopContinues s _
    · exact h
  | setTarget => exact h
  | saveDone => exact h
  | reconcile => exact h
  | timerFired => exact h

theorem busy_inPass (s : StateManager) (e : Event) (h : Busy s) : Busy (inPass s e) := by
  rw [inPass]
  split
  · exact h
  · next p hp => exact busy_advance s p e hp h

theorem busy_step (s : StateManager) (e : Event) (h : Busy s) : Busy (step s e) := by
  cases e with
  | setTarget => exact h
  | saveDone => exact busy_saveDone s h
  | reconcile => exact busy_reconcile s h
  | timerFired => exact busy_timerFired s h
  | _ => exact busy_inPass s _ h

theorem served_setTarget (s : StateManager) : Served (setTarget s) :=
  .inr (.inr (.inl (Nat.succ_pos _)))

theorem served_startPass (s : StateManager) : Served (startPass s) :=
  .inr (.inr (.inr ⟨_,rfl,.inr ⟨rfl,rfl⟩⟩))

theorem served_reconcile (s : StateManager) (hb : Busy s)
    (hs : s.pass.all (fun p => p.stage.running) = true ∨ Served s) : Served (reconcile s) := by
  rw [reconcile]
  split
  · next hr =>
    rw [Busy, hr] at hb
    obtain ⟨p,hp⟩ := Option.isSome_iff_exists.mp hb.symm
    rcases hs with hall | hs
    · rw [hp] at hall
      have hstage : p.stage ≠ .settled true := by
        intro h
        rw [Option.all_some, h] at hall
        exact Bool.noConfusion hall
      exact .inr (.inr (.inr ⟨p,hp,.inl ⟨hstage,rfl⟩⟩))
    · rcases hs with h | h | h | ⟨q,hq,h⟩
      · exact .inl h
      · exact .inr (.inl h)
      · exact .inr (.inr (.inl h))
      · refine .inr (.inr (.inr ⟨q,hq,?_⟩))
        exact h.imp (fun h => ⟨h.1,rfl⟩) id
  · exact served_startPass s

theorem served_timerFired (s : StateManager) (hb : Busy s) (hs : Served s) :
    Served (timerFired s) := by
  rw [timerFired]
  split
  · next h =>
    rw [Bool.and_eq_true] at h
    exact served_reconcile _ hb (.inl h.2)
  · exact hs

theorem served_iff_spared (s : StateManager) (h : ∀ p ∈ s.pass, ¬LoopServes s p) :
    Served s ↔ Spared s s.saves := by
  constructor
  · rintro (h1 | h1 | h1 | ⟨p,hp,hl⟩)
    · exact .inl h1
    · exact .inr (.inl h1)
    · exact .inr (.inr h1)
    · exact absurd hl (h p hp)
  · rintro (h1 | h1 | h1)
    · exact .inl h1
    · exact .inr (.inl h1)
    · exact .inr (.inr (.inl h1))

theorem not_loopServes_threw (s : StateManager) (p : Pass) (h : p.stage = .settled true) :
    ¬LoopServes s p := by
  rintro (h1 | h1)
  · exact h1.1 h
  · exact Stage.noConfusion (h.symm.trans h1.1)

theorem saveDone_idle (s : StateManager) (h0 : s.saves ≠ 0) (hr : s.isReconciling = false) :
    saveDone s = scheduleReconcile { s with saves := s.saves-1 } := by
  rw [saveDone, if_neg h0]
  dsimp only
  rw [if_pos (by rw [hr]; rfl)]

theorem saveDone_busy (s : StateManager) (h0 : s.saves ≠ 0) (hr : s.isReconciling = true) :
    saveDone s = { s with saves := s.saves-1, pendingReconcile := true } := by
  rw [saveDone, if_neg h0]
  dsimp only
  rw [if_neg (by rw [hr]; exact Bool.noConfusion)]

theorem heeded_of_none (s : StateManager) (e : Event) (hp : s.pass = none) : Heeded s e := by
  have hn : ∀ q, q ∉ s.pass := by
    intro q hq
    rw [hp] at hq
    exact Option.not_mem_none q hq
  cases e with
  | passThrows => exact fun ⟨q,hq,_⟩ => absurd hq (hn q)
  | saveDone => exact fun ⟨q,hq,_⟩ => absurd hq (hn q)
  | _ => trivial

theorem served_saveDone_iff (s : StateManager) (hb : Busy s) (hs : Served s) :
    Served (saveDone s) ↔ Heeded s .saveDone := by
  by_cases h0 : s.saves = 0
  · rw [saveDone, if_pos h0]
    exact iff_of_true hs (fun _ h => absurd h0 (Nat.ne_of_gt h))
  cases hp : s.pass with
  | none =>
    rw [Busy, hp] at hb
    rw [saveDone_idle s h0 hb]
    exact iff_of_true (.inr (.inl rfl)) (heeded_of_none s _ hp)
  | some p =>
    rw [Busy, hp] at hb
    rw [saveDone_busy s h0 hb]
    by_cases ht : p.stage = .settled true
    · refine (served_iff_spared _ ?_).trans ?_
      · intro q hq
        rw [hp] at hq
        cases hq
        exact not_loopServes_threw _ p ht
      constructor
      · exact fun h _ _ => h
      · exact fun h => h ⟨p,hp,ht⟩ (Nat.pos_of_ne_zero h0)
    · refine iff_of_true (.inr (.inr (.inr ⟨p,hp,.inl ⟨ht,rfl⟩⟩))) ?_
      rintro ⟨q,hq,h⟩
      rw [hp] at hq
      cases hq
      exact absurd h ht

theorem served_atStage (s : StateManager) (p : Pass) (stage : Stage) (hp : s.pass = some p)
    (hc : p.stage ≠ .containers) (ht : stage ≠ .settled true) (hs : Served s) :
    Served (atStage s p stage) := by
  rcases hs with h | h | h | ⟨q,hq,h⟩
  · exact .inl h
  · exact .inr (.inl h)
  · exact .inr (.inr (.inl h))
  · rw [hp] at hq
    cases hq
    rcases h with h | h
    · exact .inr (.inr (.inr ⟨_,rfl,.inl ⟨ht,h.2⟩⟩))
    · exact absurd h.1 hc

theorem served_containersDone (s : StateManager) (p : Pass) (hp : s.pass = some p)
    (hs : Served s) : Served (containersDone s p) := by
  rw [containersDone]
  by_cases ha : p.apps = s.targetState
  · rw [if_pos ha]
    exact .inl rfl
  · rw [if_neg ha]
    rcases hs with h | h | h | ⟨q,hq,h⟩
    · exact .inl h
    · exact .inr (.inl h)
    · exact .inr (.inr (.inl h))
    · rw [hp] at hq
      cases hq
      rcases h with h | h
      · exact .inr (.inr (.inr ⟨_,rfl,.inl ⟨Stage.noConfusion,h.2⟩⟩))
      · exact absurd h.2 ha

theorem served_configDone (s : StateManager) (p : Pass) (isApplying : Bool)
    (hp : s.pass = some p) (hc : p.stage = .config) (hs : Served s) :
    Served (configDone s p isApplying) := by
  rw [configDone]
  split
  · exact .inr (.inl rfl)
  · exact served_atStage s p _ hp (by rw [hc]; exact Stage.noConfusion) Stage.noConfusion hs

theorem served_loopContinues (s : StateManager) (p : Pass) (threw : Bool)
    (hp : s.pass = some p) (hc : p.stage = .settled threw) (hs : Served s) :
    Served (loopContinues s threw) := by
  rw [loopContinues]
  split
  · exact served_startPass s
  · next hn =>
    have hl : ∀ q ∈ s.pass, ¬LoopServes s q := by
      intro q hq
      rw [hp] at hq
      cases hq
      rintro (⟨h1,h2⟩ | ⟨h1,_⟩)
      · cases threw with
        | true => exact h1 hc
        | false => exact hn h2
      · exact Stage.noConfusion (hc.symm.trans h1)
    rcases (served_iff_spared s hl).mp hs with h | h | h
    · exact .inl h
    · exact .inr (.inl h)
    · exact .inr (.inr (.inl h))

theorem served_passThrows_iff (s : StateManager) (p : Pass) (hp : s.pass = some p)
    (hs : Served s) : Served (advance s p .passThrows) ↔ Heeded s .passThrows := by
  show Served (if _ then _ else _) ↔ _
  split
  · next hr =>
    have hl : ∀ q ∈ (atStage s p (.settled true)).pass,
        ¬LoopServes (atStage s p (.settled true)) q := by
      intro q hq
      cases hq
      exact not_loopServes_threw _ _ rfl
    refine (served_iff_spared _ hl).trans ?_
    constructor
    · exact fun h _ => h
    · exact fun h => h ⟨p,hp,hr⟩
  · next hr =>
    refine iff_of_true hs ?_
    rintro ⟨q,hq,h⟩
    rw [hp] at hq
    cases hq
    exact absurd h hr

theorem served_advance_iff (s : StateManager) (p : Pass) (e : Event) (hp : s.pass = some p)
    (hne : e ≠ .saveDone) (hs : Served s) : Served (advance s p e) ↔ Heeded s e := by
  cases e with
  | containersDone =>
    refine iff_of_true ?_ trivial
    show Served (if _ then _ else _)
    split
    · exact served_containersDone s p hp hs
    · exact hs
  | configDone isApplying =>
    refine iff_of_true ?_ trivial
    show Served (if _ then _ else _)
    split
    · next hc => exact served_configDone s p isApplying hp hc hs
    · exact hs
  | versionDone =>
    refine iff_of_true ?_ trivial
    show Served (if _ then _ else _)
    split
    · next hc =>
      exact served_atStage s p _ hp (by rw [hc]; exact Stage.noConfusion) Stage.noConfusion hs
    · exact hs
  | checkpointDone =>
    refine iff_of_true ?_ trivial
    show Served (if _ then _ else _)
    split
    · next hc =>
      refine served_atStage s p _ hp (by rw [hc]; exact Stage.noConfusion) ?_ hs
      exact fun h => Bool.noConfusion (Stage.settled.inj h)
    · exact hs
  | passThrows => exact served_passThrows_iff s p hp hs
  | loopContinues =>
    refine iff_of_true ?_ trivial
    rw [advance]
    split
    · next threw hc => exact served_loopContinues s p threw hp hc hs
    · exact hs
  | setTarget => exact iff_of_true hs trivial
  | saveDone => exact absurd rfl hne
  | reconcile => exact iff_of_true hs trivial
  | timerFired => exact iff_of_true hs trivial

theorem served_inPass_iff (s : StateManager) (e : Event) (hne : e ≠ .saveDone) (hs : Served s) :
    Served (inPass s e) ↔ Heeded s e := by
  rw [inPass]
  split
  · next hp => exact iff_of_true hs (heeded_of_none s e hp)
  · next p hp => exact served_advance_iff s p e hp hne hs

theorem served_step_iff (s : StateManager) (e : Event) (hb : Busy s) (hs : Served s) :
    Served (step s e) ↔ Heeded s e := by
  cases e with
  | setTarget => exact iff_of_true (served_setTarget s) trivial
  | saveDone => exact served_saveDone_iff s hb hs
  | reconcile => exact iff_of_true (served_reconcile s hb (.inr hs)) trivial
  | timerFired => exact iff_of_true (served_timerFired s hb hs) trivial
  | _ => exact served_inPass_iff s _ Event.noConfusion hs

/-- The newest target is seen to at every moment of a run exactly when no
pass throws, and no loop leaves, over a request that nothing else covers. -/
theorem requests_served_iff (es : List Event) :
    (∀ pre, pre <+: es → Served (run step pre created)) ↔ Meets step Heeded es created :=
  always_iff_meets (I := Busy) busy_step served_step_iff es _ rfl (.inl rfl)

/-- A target that arrives during a pass is dropped when the pass throws: the
loop ends, no timer is set and the flag stays up for nobody. -/
theorem request_swallowed : ¬∀ es, ∀ pre, pre <+: es → Served (run step pre created) := by
  intro h
  exact absurd (h [.setTarget,.saveDone,.timerFired,.setTarget,.saveDone,.passThrows,.loopContinues]
    _ List.prefix_rfl) (by decide +kernel)

end Iotistica.Reconciler
