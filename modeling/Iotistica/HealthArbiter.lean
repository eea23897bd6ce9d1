import Iotistica.GuardedRun
import Iotistica.ThresholdRuns
import Mathlib.Data.Rat.Defs
import Mathlib.Algebra.Order.Ring.Rat
import Mathlib.Tactic.Linarith

/-!
# The health arbiter

A subsystem is checked by a function that answers true or false or throws.
Failures by an answer and failures by an exception are booked on two paths.
The watchdog asks `isHealthy`, and the cloud is sent `getHealthReport`.
-/

set_option autoImplicit false

namespace Iotistica.HealthState
open GuardedRun ThresholdRuns

inductive Outcome where
  | returned (healthy : Bool)
  | threw (message : String)
deriving DecidableEq

def Outcome.failed : Outcome → Bool
  | .returned healthy => !healthy
  | .threw _ => true

structure SubsystemOptions where
  critical : Option Bool
  description : Option String
  recoveryCooldownMs : Option ℚ
  minFailuresBeforeLatch : Option ℕ

structure SubsystemHealth where
  name : String
  critical : Bool
  description : Option String
  healthy : Bool
  lastCheck : ℕ
  lastError : Option String
  consecutiveFailures : ℕ
  recoveryCooldownMs : ℚ
  minFailuresBeforeLatch : ℕ
  lastFailureTime : ℕ
  latched : Bool

def registerSubsystem (name : String) (options : SubsystemOptions) : SubsystemHealth :=
  let critical := options.critical.getD false
  { name := name
    critical := critical
    description := options.description
    healthy := false
    lastCheck := 0
    lastError := none
    consecutiveFailures := 0
    recoveryCooldownMs := options.recoveryCooldownMs.getD (if critical then 30000 else 0)
    minFailuresBeforeLatch := options.minFailuresBeforeLatch.getD 2
    lastFailureTime := 0
    latched := false }

namespace SubsystemHealth

def cooling (s : SubsystemHealth) (now : ℕ) : Bool :=
  s.critical && decide (0 < s.lastFailureTime) &&
    decide ((now : ℚ)-s.lastFailureTime < s.recoveryCooldownMs)

def failing (s : SubsystemHealth) (now : ℕ) : SubsystemHealth :=
  { s with
    consecutiveFailures := s.consecutiveFailures+1
    lastFailureTime := now
    lastError := some "health_check_failed"
    latched := s.latched ||
      (s.critical && decide (s.minFailuresBeforeLatch ≤ s.consecutiveFailures+1)) }

def settled (s : SubsystemHealth) (outcome : Outcome) (now : ℕ) : SubsystemHealth :=
  match outcome with
  | .returned healthy =>
    if healthy && !s.healthy && s.cooling now then { s with lastCheck := now }
    else
      let t := if !healthy then s.failing now else { s with consecutiveFailures := 0 }
      { t with
        healthy := healthy && !t.latched
        lastCheck := now
        lastError := if healthy then none else t.lastError }
  | .threw message =>
    { s with
      healthy := false
      lastCheck := now
      lastError := some message
      consecutiveFailures := s.consecutiveFailures+1 }

def checkSubsystem (s : SubsystemHealth) (outcome : Outcome) (now : ℕ) : SubsystemHealth :=
  if s.latched then s else s.settled outcome now

theorem settled_kept (s : SubsystemHealth) (o : Outcome) (now : ℕ) :
    (s.settled o now).critical=s.critical ∧
      (s.settled o now).minFailuresBeforeLatch=s.minFailuresBeforeLatch ∧
      (s.settled o now).recoveryCooldownMs=s.recoveryCooldownMs := by
  unfold settled failing
  cases o with
  | threw message => exact ⟨rfl,rfl,rfl⟩
  | returned healthy =>
    dsimp only
    split
    · exact ⟨rfl,rfl,rfl⟩
    · cases healthy <;> exact ⟨rfl,rfl,rfl⟩

theorem settled_success (s : SubsystemHealth) (now : ℕ) :
    s.settled (.returned true) now=
      if s.healthy = false ∧ s.cooling now = true then { s with lastCheck := now }
      else { s with
        consecutiveFailures := 0
        healthy := !s.latched
        lastCheck := now
        lastError := none } := by
  unfold settled
  cases s.healthy <;> cases s.cooling now <;> simp

theorem settled_failure (s : SubsystemHealth) (now : ℕ) :
    s.settled (.returned false) now=
      { s with
        consecutiveFailures := s.consecutiveFailures+1
        lastFailureTime := now
        lastError := some "health_check_failed"
        latched := s.latched ||
          (s.critical && decide (s.minFailuresBeforeLatch ≤ s.consecutiveFailures+1))
        healthy := false
        lastCheck := now } := rfl

end SubsystemHealth

structure HealthArbiter where
  subsystems : List SubsystemHealth
  fatalError : Option String

structure SubsystemReport where
  name : String
  healthy : Bool
  critical : Bool
  description : Option String
  lastCheck : ℕ
  lastError : Option String
  consecutiveFailures : ℕ

structure HealthReport where
  overall : Bool
  subsystems : List SubsystemReport
  unhealthySubsystems : List String
  criticalFailures : List String

namespace HealthArbiter

def markFatal (a : HealthArbiter) (reason : String) : HealthArbiter :=
  { a with fatalError := some reason }

/-- `if (this.fatalError)`: the empty reason counts as none. -/
def fatal (a : HealthArbiter) : Bool := a.fatalError.any (fun reason => reason ≠ "")

/-- The decision of `isHealthy` on the states as they are. -/
def verdict (a : HealthArbiter) : Bool :=
  !a.fatal && !a.subsystems.any (fun s => s.critical && !s.healthy)

def isHealthy (a : HealthArbiter) (outcome : String → Outcome) (now : String → ℕ) :
    Bool × HealthArbiter :=
  if a.fatal then (false,a)
  else
    let checked := { a with
      subsystems := a.subsystems.map
        (fun s => s.checkSubsystem (outcome s.name) (now s.name)) }
    (!checked.subsystems.any (fun s => s.critical && !s.healthy),checked)

def getHealthReport (a : HealthArbiter) : HealthReport :=
  let subsystems := a.subsystems.map (fun s => (⟨s.name,s.healthy,s.critical,s.description,
    s.lastCheck,s.lastError,s.consecutiveFailures⟩ : SubsystemReport))
  let unhealthySubsystems := (subsystems.filter (fun s => !s.healthy)).map SubsystemReport.name
  let criticalFailures :=
    (subsystems.filter (fun s => s.critical && !s.healthy)).map SubsystemReport.name
  ⟨criticalFailures.isEmpty,subsystems,unhealthySubsystems,criticalFailures⟩

theorem isHealthy_verdict (a : HealthArbiter) (outcome : String → Outcome) (now : String → ℕ) :
    (a.isHealthy outcome now).1=(a.isHealthy outcome now).2.verdict := by
  unfold isHealthy
  split
  · next h => simp [verdict, h]
  · next h =>
    have hfatal : a.fatal = false := by simpa using h
    change _ = (!a.fatal && _)
    rw [hfatal]
    rfl

theorem overall_eq (a : HealthArbiter) :
    a.getHealthReport.overall=!a.subsystems.any (fun s => s.critical && !s.healthy) := by
  unfold getHealthReport
  induction a.subsystems with
  | nil => rfl
  | cons s ss ih =>
    simp only [List.map_cons, List.filter_cons, List.any_cons]
    cases hs : s.critical && !s.healthy with
    | true => simp
    | false => simpa using ih

/-- The report agrees with the watchdog's verdict unless a fatal error is
all that is wrong. -/
theorem overall_iff (a : HealthArbiter) : a.getHealthReport.overall=a.verdict ↔
    a.fatal = false ∨ ∃ s ∈ a.subsystems, s.critical = true ∧ s.healthy = false := by
  rw [overall_eq, verdict]
  have hany : (∃ s ∈ a.subsystems, s.critical = true ∧ s.healthy = false) ↔
      a.subsystems.any (fun s => s.critical && !s.healthy) = true := by simp
  rw [hany]
  cases a.fatal <;> cases a.subsystems.any (fun s => s.critical && !s.healthy) <;> simp

end HealthArbiter

structure CriticalOptions where
  options : SubsystemOptions
  critical : options.critical = some true
  positive : 0 < options.minFailuresBeforeLatch.getD 2

/-- A check as a whole, or the end of one that was started before. Each
comes with the time since the one before it. -/
inductive Event where
  | check (outcome : Outcome) (elapsed : ℕ)
  | settle (outcome : Outcome) (elapsed : ℕ)
deriving DecidableEq

/-- `checks` is a log of the completed checks, oldest first. -/
structure Watch where
  subsystem : SubsystemHealth
  clock : ℕ
  checks : List (Outcome × ℕ)

def Event.elapsed : Event → ℕ
  | .check _ elapsed => elapsed
  | .settle _ elapsed => elapsed

def completed (s : Watch) : Event → Option Outcome
  | .check outcome _ => if s.subsystem.latched then none else some outcome
  | .settle outcome _ => some outcome

def step (s : Watch) (e : Event) : Watch :=
  let now := s.clock+e.elapsed
  { subsystem := match e with
      | .check outcome _ => s.subsystem.checkSubsystem outcome now
      | .settle outcome _ => s.subsystem.settled outcome now
    clock := now
    checks := s.checks++((completed s e).map (fun outcome => (outcome,now))).toList }

def registered (name : String) (o : CriticalOptions) (start : ℕ) : Watch :=
  ⟨registerSubsystem name o.options,start+1,[]⟩

def failures (checks : List (Outcome × ℕ)) : List Bool := checks.map (fun c => c.1.failed)

def latestFailure (checks : List (Outcome × ℕ)) : Option ℕ :=
  (checks.reverse.find? (fun c => c.1.failed)).map Prod.snd

def Exhausted (s : Watch) : Prop :=
  List.replicate s.subsystem.minFailuresBeforeLatch true <:+: failures s.checks

def Cooled (s : Watch) (now : ℕ) : Prop :=
  ∀ t ∈ latestFailure s.checks, s.subsystem.recoveryCooldownMs ≤ (now : ℚ)-t

/-- What a check shall do. -/
structure Lawful (s : Watch) (e : Event) : Prop where
  latched : (step s e).subsystem.latched = true ↔ Exhausted (step s e)
  failed : ∀ o, completed s e = some o → o.failed = true →
    (step s e).subsystem.healthy = false
  sealed : (step s e).subsystem.latched = true → (step s e).subsystem.healthy = false
  recovery : s.subsystem.healthy = false → ((step s e).subsystem.healthy = true ↔
    completed s e = some (.returned true) ∧ s.subsystem.latched = false ∧
      Cooled s (s.clock+e.elapsed))

/-- When it does. -/
def Regular (s : Watch) (e : Event) : Prop :=
  match completed s e with
  | none => True
  | some (.returned false) =>
    s.subsystem.latched = true ∨
      s.subsystem.consecutiveFailures+1 < s.subsystem.minFailuresBeforeLatch ∨
      s.subsystem.minFailuresBeforeLatch ≤ trailing true (failures s.checks)+1
  | some (.threw _) =>
    s.subsystem.latched = true ∨
      trailing true (failures s.checks)+1 < s.subsystem.minFailuresBeforeLatch
  | some (.returned true) =>
    s.subsystem.healthy = true ∨ s.subsystem.latched = true ∨
      s.subsystem.cooling (s.clock+e.elapsed) = true ∨ Cooled s (s.clock+e.elapsed)

structure Booked (s : Watch) : Prop where
  critical : s.subsystem.critical = true
  positive : 0 < s.subsystem.minFailuresBeforeLatch
  clock : 0 < s.clock
  sealed : s.subsystem.latched = true → s.subsystem.healthy = false
  streak : trailing true (failures s.checks) ≤ s.subsystem.consecutiveFailures
  past : ∀ t ∈ latestFailure s.checks, t ≤ s.clock
  noted : 0 < s.subsystem.lastFailureTime →
    ∃ t ∈ latestFailure s.checks, s.subsystem.lastFailureTime ≤ t

theorem registered_booked (name : String) (o : CriticalOptions) (start : ℕ) :
    Booked (registered name o start) := by
  refine ⟨?_,o.positive,Nat.succ_pos _,nofun,Nat.zero_le _,nofun,nofun⟩
  simp [registered, registerSubsystem, o.critical]

theorem latestFailure_append (checks : List (Outcome × ℕ)) (o : Outcome) (now : ℕ) :
    latestFailure (checks++[(o,now)])=if o.failed then some now else latestFailure checks := by
  simp only [latestFailure, List.reverse_append, List.reverse_singleton, List.singleton_append,
    List.find?_cons]
  cases o.failed <;> rfl

theorem failures_append (checks : List (Outcome × ℕ)) (o : Outcome) (now : ℕ) :
    failures (checks++[(o,now)])=failures checks++[o.failed] := by
  simp [failures]

theorem step_some {s : Watch} {e : Event} {o : Outcome} (h : completed s e = some o) :
    step s e=⟨s.subsystem.settled o (s.clock+e.elapsed),s.clock+e.elapsed,
      s.checks++[(o,s.clock+e.elapsed)]⟩ := by
  cases e with
  | settle outcome elapsed =>
    obtain rfl : outcome = o := by simpa [completed] using h
    rfl
  | check outcome elapsed =>
    simp only [completed] at h
    split at h
    · cases h
    · next hl =>
      obtain rfl : outcome = o := by simpa using h
      simp [step, completed, SubsystemHealth.checkSubsystem, hl, Event.elapsed]

theorem step_none {s : Watch} {e : Event} (h : completed s e = none) :
    step s e=⟨s.subsystem,s.clock+e.elapsed,s.checks⟩ ∧ s.subsystem.latched = true := by
  cases e with
  | settle outcome elapsed => cases h
  | check outcome elapsed =>
    simp only [completed] at h
    split at h
    · next hl => simp [step, completed, SubsystemHealth.checkSubsystem, hl, Event.elapsed]
    · cases h

theorem streak_failed (checks : List (Outcome × ℕ)) {o : Outcome} (now : ℕ)
    (ho : o.failed = true) :
    trailing true (failures (checks++[(o,now)]))=trailing true (failures checks)+1 := by
  rw [failures_append, ho, trailing_append_self]

theorem streak_success (checks : List (Outcome × ℕ)) {o : Outcome} (now : ℕ)
    (ho : o.failed = false) : trailing true (failures (checks++[(o,now)]))=0 := by
  rw [failures_append, ho]
  exact trailing_append_ne (by decide) _

theorem booked_log {s : Watch} (h : Booked s) {t : SubsystemHealth} {o : Outcome} {now : ℕ}
    (hnow : s.clock ≤ now) (hc : t.critical = true) (hp : 0 < t.minFailuresBeforeLatch)
    (hsealed : t.latched = true → t.healthy = false)
    (hstreak : o.failed = true → s.subsystem.consecutiveFailures+1 ≤ t.consecutiveFailures)
    (hnoted : t.lastFailureTime = s.subsystem.lastFailureTime ∨
      (o.failed = true ∧ t.lastFailureTime = now)) :
    Booked ⟨t,now,s.checks++[(o,now)]⟩ := by
  have hlatest := latestFailure_append s.checks o now
  refine ⟨hc,hp,Nat.lt_of_lt_of_le h.clock hnow,hsealed,?_,?_,?_⟩
  · cases ho : o.failed with
    | true =>
      have := hstreak ho
      have := h.streak
      dsimp only
      rw [streak_failed _ _ ho]
      omega
    | false =>
      dsimp only
      rw [streak_success _ _ ho]
      exact Nat.zero_le _
  · intro t' ht'
    dsimp only at ht' ⊢
    rw [hlatest] at ht'
    cases ho : o.failed with
    | true =>
      rw [ho] at ht'
      have : now = t' := by simpa using ht'
      omega
    | false =>
      rw [ho] at ht'
      exact Nat.le_trans (h.past t' ht') hnow
  · intro hpos
    dsimp only at hpos ⊢
    rw [hlatest]
    cases ho : o.failed with
    | true =>
      refine ⟨now,rfl,?_⟩
      rcases hnoted with hl | hl
      · rw [hl] at hpos ⊢
        obtain ⟨t',ht',hle⟩ := h.noted hpos
        exact Nat.le_trans hle (Nat.le_trans (h.past t' ht') hnow)
      · exact Nat.le_of_eq hl.2
    | false =>
      rcases hnoted with hl | hl
      · rw [hl] at hpos ⊢
        exact h.noted hpos
      · rw [ho] at hl
        cases hl.1

theorem step_booked {s : Watch} (h : Booked s) (e : Event) : Booked (step s e) := by
  cases hc : completed s e with
  | none =>
    rw [(step_none hc).1]
    exact ⟨h.critical,h.positive,Nat.add_pos_left h.clock _,h.sealed,h.streak,
      fun t ht => Nat.le_trans (h.past t ht) (Nat.le_add_right _ _),h.noted⟩
  | some o =>
    rw [step_some hc]
    have hnow := Nat.le_add_right s.clock e.elapsed
    obtain ⟨hkc,hkm,-⟩ := s.subsystem.settled_kept o (s.clock+e.elapsed)
    refine booked_log h hnow (hkc.trans h.critical) (hkm ▸ h.positive) ?_ ?_ ?_
    · cases o with
      | threw message => exact fun _ => rfl
      | returned healthy =>
        cases healthy with
        | false => exact fun _ => rfl
        | true =>
          rw [SubsystemHealth.settled_success]
          split
          · exact h.sealed
          · intro hl
            dsimp only at hl ⊢
            rw [hl]
            rfl
    · intro ho
      cases o with
      | threw message => exact Nat.le_refl _
      | returned healthy =>
        cases healthy with
        | false => exact Nat.le_refl _
        | true => cases ho
    · cases o with
      | threw message => exact .inl rfl
      | returned healthy =>
        cases healthy with
        | false => exact .inr ⟨rfl,rfl⟩
        | true =>
          rw [SubsystemHealth.settled_success]
          split
          · exact .inl rfl
          · exact .inl rfl

theorem exhausted_append {s : Watch} (h : Booked s) {t : SubsystemHealth} (o : Outcome) (now : ℕ)
    (ht : t.minFailuresBeforeLatch = s.subsystem.minFailuresBeforeLatch) :
    Exhausted ⟨t,now,s.checks++[(o,now)]⟩ ↔ Exhausted s ∨
      (o.failed = true ∧
        s.subsystem.minFailuresBeforeLatch ≤ trailing true (failures s.checks)+1) := by
  unfold Exhausted
  rw [failures_append, ht]
  exact replicate_infix_append h.positive true o.failed _

theorem not_cooled {s : Watch} (h : Booked s) {now : ℕ} (hc : s.subsystem.cooling now = true) :
    ¬ Cooled s now := by
  intro hcooled
  simp only [SubsystemHealth.cooling, Bool.and_eq_true, decide_eq_true_eq] at hc
  obtain ⟨⟨-,hpos⟩,hlt⟩ := hc
  obtain ⟨t,ht,hle⟩ := h.noted hpos
  have hge := hcooled t ht
  have hcast : (s.subsystem.lastFailureTime : ℚ) ≤ t := by exact_mod_cast hle
  linarith

theorem exhausted_failed {s : Watch} (h : Booked s) {e : Event} {o : Outcome}
    (hc : completed s e = some o) (hfailed : o.failed = true) :
    Exhausted (step s e) ↔ Exhausted s ∨
      s.subsystem.minFailuresBeforeLatch ≤ trailing true (failures s.checks)+1 := by
  rw [step_some hc, exhausted_append h _ _ (s.subsystem.settled_kept _ _).2.1]
  simp [hfailed]

theorem lawful_failed_iff {s : Watch} {e : Event} {o : Outcome} (hc : completed s e = some o)
    (hfailed : o.failed = true) (hsick : (step s e).subsystem.healthy = false) :
    Lawful s e ↔ ((step s e).subsystem.latched = true ↔ Exhausted (step s e)) := by
  constructor
  · exact fun hlaw => hlaw.latched
  · intro hlatched
    refine ⟨hlatched,fun _ _ _ => hsick,fun _ => hsick,fun _ => ?_⟩
    have hne : completed s e ≠ some (.returned true) := by
      rw [hc]
      intro hreturned
      obtain rfl := Option.some.inj hreturned
      cases hfailed
    rw [hsick]
    simp [hne]

theorem lawful_failure {s : Watch} (h : Booked s)
    (hl : s.subsystem.latched = true ↔ Exhausted s) {e : Event}
    (hc : completed s e = some (.returned false)) : Lawful s e ↔ Regular s e := by
  have hlatched : (step s e).subsystem.latched = true ↔ s.subsystem.latched = true ∨
      s.subsystem.minFailuresBeforeLatch ≤ s.subsystem.consecutiveFailures+1 := by
    rw [step_some hc, SubsystemHealth.settled_failure]
    simp [h.critical]
  have hsick : (step s e).subsystem.healthy = false := by
    rw [step_some hc]
    rfl
  have hstreak := h.streak
  rw [lawful_failed_iff hc (by rfl) hsick, hlatched, exhausted_failed h hc (by rfl), ← hl]
  unfold Regular
  rw [hc]
  constructor
  · intro hiff
    by_cases hlat : s.subsystem.latched = true
    · exact .inl hlat
    · simp only [hlat, Bool.false_eq_true, false_or] at hiff
      by_cases hmin : s.subsystem.minFailuresBeforeLatch ≤ s.subsystem.consecutiveFailures+1
      · exact .inr (.inr (hiff.mp hmin))
      · exact .inr (.inl (by omega))
  · rintro (hlat | hmin | hmin)
    · simp [hlat]
    · refine or_congr Iff.rfl ⟨fun h => ?_,fun h => ?_⟩ <;> omega
    · refine or_congr Iff.rfl ⟨fun _ => hmin,fun _ => ?_⟩
      omega

theorem lawful_threw {s : Watch} (h : Booked s)
    (hl : s.subsystem.latched = true ↔ Exhausted s) {e : Event} {message : String}
    (hc : completed s e = some (.threw message)) : Lawful s e ↔ Regular s e := by
  have hlatched : (step s e).subsystem.latched=s.subsystem.latched := by
    rw [step_some hc]
    rfl
  have hsick : (step s e).subsystem.healthy = false := by
    rw [step_some hc]
    rfl
  rw [lawful_failed_iff hc (by rfl) hsick, hlatched, exhausted_failed h hc (by rfl), ← hl]
  unfold Regular
  rw [hc]
  constructor
  · intro hiff
    by_cases hmin : s.subsystem.minFailuresBeforeLatch ≤ trailing true (failures s.checks)+1
    · exact .inl (hiff.mpr (.inr hmin))
    · exact .inr (by omega)
  · intro hreg
    constructor
    · exact .inl
    · rintro (hlat | hmin)
      · exact hlat
      · exact hreg.resolve_right (by omega)

theorem lawful_success {s : Watch} (h : Booked s)
    (hl : s.subsystem.latched = true ↔ Exhausted s) {e : Event}
    (hc : completed s e = some (.returned true)) : Lawful s e ↔ Regular s e := by
  have hlatched : (step s e).subsystem.latched=s.subsystem.latched := by
    rw [step_some hc, SubsystemHealth.settled_success]
    split <;> rfl
  have hexhausted : Exhausted (step s e) ↔ Exhausted s := by
    rw [step_some hc, exhausted_append h _ _ (s.subsystem.settled_kept _ _).2.1]
    simp [Outcome.failed]
  have hhealthy : (step s e).subsystem.healthy = true ↔
      ¬(s.subsystem.healthy = false ∧ s.subsystem.cooling (s.clock+e.elapsed) = true) ∧
        s.subsystem.latched = false := by
    rw [step_some hc, SubsystemHealth.settled_success]
    split
    · next hcool => simp [hcool.1, hcool.2]
    · next hcool => simp [hcool]
  have hcool : s.subsystem.cooling (s.clock+e.elapsed) = true → ¬ Cooled s (s.clock+e.elapsed) :=
    not_cooled h
  unfold Regular
  rw [hc]
  constructor
  · intro hlaw
    by_cases hh : s.subsystem.healthy = true
    · exact .inl hh
    · have hh : s.subsystem.healthy = false := by simpa using hh
      have hiff := hlaw.recovery hh
      rw [hhealthy, hc] at hiff
      by_cases hlat : s.subsystem.latched = true
      · exact .inr (.inl hlat)
      · have hlat : s.subsystem.latched = false := by simpa using hlat
        by_cases hcl : s.subsystem.cooling (s.clock+e.elapsed) = true
        · exact .inr (.inr (.inl hcl))
        · exact .inr (.inr (.inr (hiff.mp ⟨fun hx => hcl hx.2,hlat⟩).2.2))
  · intro hreg
    refine ⟨?_,?_,?_,fun hh => ?_⟩
    · rw [hlatched, hexhausted, hl]
    · intro o ho hfail
      rw [hc] at ho
      obtain rfl := Option.some.inj ho
      cases hfail
    · intro hlat
      rw [hlatched] at hlat
      by_contra hx
      have := hhealthy.mp (by simpa using hx)
      rw [hlat] at this
      cases this.2
    · rw [hhealthy, hc]
      simp only [hh, true_and]
      constructor
      · rintro ⟨hcl,hlat⟩
        refine ⟨hlat,?_⟩
        rcases hreg with hx | hx | hx | hx
        · rw [hh] at hx
          cases hx
        · rw [hlat] at hx
          cases hx
        · exact absurd hx hcl
        · exact hx
      · rintro ⟨hlat,hcooled⟩
        exact ⟨fun hcl => hcool hcl hcooled,hlat⟩

theorem lawful_iff {s : Watch} (h : Booked s)
    (hl : s.subsystem.latched = true ↔ Exhausted s) (e : Event) : Lawful s e ↔ Regular s e := by
  cases hc : completed s e with
  | some o =>
    cases o with
    | threw message => exact lawful_threw h hl hc
    | returned healthy =>
      cases healthy with
      | false => exact lawful_failure h hl hc
      | true => exact lawful_success h hl hc
  | none =>
    obtain ⟨hstep,hlat⟩ := step_none hc
    have hreg : Regular s e := by
      unfold Regular
      rw [hc]
      trivial
    refine iff_of_true ?_ hreg
    refine ⟨?_,?_,?_,fun hh => ?_⟩
    · rw [hstep]
      exact hl
    · intro o ho
      rw [hc] at ho
      cases ho
    · rw [hstep]
      exact h.sealed
    · rw [hstep, hc, hh]
      simp

/-- In every run of checks of a critical subsystem every check does what it
shall exactly when all of them meet the condition, and in every state of
the arbiter the report agrees with the verdict exactly unless a fatal error
is all that is wrong. -/
theorem latching_iff (name : String) (o : CriticalOptions) (start : ℕ) (es : List Event)
    (a : HealthArbiter) :
    ((∀ pre e post, es = pre++e::post → Lawful (run step pre (registered name o start)) e) ↔
      Meets step Regular es (registered name o start)) ∧
    (a.getHealthReport.overall=a.verdict ↔
      a.fatal = false ∨ ∃ s ∈ a.subsystems, s.critical = true ∧ s.healthy = false) := by
  refine ⟨?_,a.overall_iff⟩
  rw [← meets_iff_split]
  refine meets_iff_of_inv
    (I := fun s => Booked s ∧ (s.subsystem.latched = true ↔ Exhausted s)) ?_ ?_ es _ ?_
  · rintro s e ⟨hb,hl⟩ hreg
    exact ⟨step_booked hb e,((lawful_iff hb hl e).mpr hreg).latched⟩
  · exact fun s e hi => lawful_iff hi.1 hi.2 e
  · refine ⟨registered_booked name o start,iff_of_false nofun ?_⟩
    have hpos := o.positive
    intro hex
    have := hex.length_le
    simp [registered, registerSubsystem, failures] at this
    omega

/-- Two failed checks with a success during the cooldown between them. -/
theorem suppressed_success :
    ¬ ∀ (name : String) (o : CriticalOptions) (start : ℕ) (es : List Event),
      ∀ pre e post, es = pre++e::post →
        Lawful (run step pre (registered name o start)) e := by
  intro h
  let o : CriticalOptions := ⟨⟨some true,none,none,none⟩,rfl,by decide⟩
  let f : Event := .check (.returned false) 1
  let t : Event := .check (.returned true) 1
  have := (h "mqtt" o 0 [f,t,f] [f,t] f [] rfl).latched
  have hl : (step (run step [f,t] (registered "mqtt" o 0)) f).subsystem.latched = true := by
    decide +kernel
  have hex := this.mp hl
  revert hex
  unfold Exhausted
  decide +kernel

end Iotistica.HealthState
