import Iotistica.SlotLimiter
import Mathlib.Logic.Function.Iterate

/-!
# Replay of buffered messages

A buffered message is compacted, so its replay runs in the limiter and asks
the same limiter for an expansion, which it waits for. Expansions of messages
that arrive in the normal way run there as well. A replay keeps its slot
while it waits, and the expansion it waits for stands behind all replays of
its call.
-/

set_option autoImplicit false

namespace Iotistica.PendingReplay
open Iotistica.GuardedRun Iotistica.SlotLimiter

inductive Owner where
  | message (id : ℕ)
  | replay (id : ℕ)
  deriving DecidableEq

inductive Task where
  | replay (id : ℕ)
  | expansion (owner : Owner)
  deriving DecidableEq

/-- A replay calls `handleMessage`, which pushes the expansion at once. -/
def pushes : Task → Option Task
  | .replay id => some (.expansion (.replay id))
  | .expansion _ => none

def isReplay : Task → Bool
  | .replay _ => true
  | .expansion _ => false

def expansionLimit : ℕ := 10

/-- `expanded` are the owners whose dictionary call has come back, `replayed`
the replays whose message is handled. -/
structure State where
  limiter : Limiter Task
  expanded : List Owner
  replayed : List ℕ
  nextId : ℕ
  deriving DecidableEq

def started : State := ⟨idle,[],[],0⟩

def Settled (s : State) : Task → Prop
  | .replay id => id ∈ s.replayed
  | .expansion owner => owner ∈ s.expanded

instance (s : State) (t : Task) : Decidable (Settled s t) := by
  cases t <;> unfold Settled <;> infer_instance

inductive Event where
  /-- A compacted message arrives. -/
  | message
  /-- `zrange` of `processPendingMessages` returns this many messages. -/
  | pendingRead (count : ℕ)
  /-- The dictionary call of an expansion comes back, with a result or an
  error. -/
  | expanded (owner : Owner)
  /-- A replay goes on after its expansion and ends. -/
  | replayed (id : ℕ)
  /-- The slot of a task that has come to its end is given back. -/
  | released (t : Task)
  deriving DecidableEq

def pushNew (s : State) (t : ℕ → Task) : State :=
  { s with
    limiter := push expansionLimit pushes s.limiter (t s.nextId)
    nextId := s.nextId+1 }

def processPendingMessages (s : State) (count : ℕ) : State :=
  (fun s => pushNew s Task.replay)^[count] s

def step (s : State) : Event → State
  | .message => pushNew s (fun id => .expansion (.message id))
  | .pendingRead count => processPendingMessages s count
  | .expanded owner =>
    if .expansion owner ∈ s.limiter.slots then { s with expanded := owner :: s.expanded } else s
  | .replayed id =>
    if .replay id ∈ s.limiter.slots ∧ .replay id ∈ s.expanded then
      { s with replayed := id :: s.replayed }
    else s
  | .released t =>
    if t ∈ s.limiter.slots ∧ Settled s t then
      { s with limiter := release expansionLimit pushes s.limiter t }
    else s

/-- A started task can take a step: its call comes back, it goes on after its
expansion, or its slot is given back. -/
def CanStep (s : State) : Task → Prop
  | .expansion _ => True
  | .replay id => .replay id ∈ s.expanded

def Unfinished (s : State) : Prop := tasks s.limiter ≠ []

def CanStart (s : State) : Prop := s.limiter.queue ≠ [] ∧ s.limiter.active < expansionLimit

def AllWait (s : State) : Prop :=
  s.limiter.active = expansionLimit ∧
    ∀ t ∈ s.limiter.slots, ∃ u ∈ pushes t, u ∈ s.limiter.queue

def Alive (s : State) : Prop :=
  (Unfinished s → (∃ t ∈ s.limiter.slots, CanStep s t) ∨ CanStart s) ∧ ¬AllWait s

def unfinishedReplays (s : State) : ℕ := (tasks s.limiter).countP isReplay

/-- A call brings the unfinished replays to at most `n`. -/
def Within (n : ℕ) (s : State) : Event → Prop
  | .pendingRead count => unfinishedReplays s+count ≤ n
  | _ => True

structure Sound (s : State) : Prop where
  busy : Busy expansionLimit s.limiter
  covered : Covered pushes (Settled s) s.limiter

theorem sound_started : Sound started :=
  ⟨⟨rfl,Nat.zero_le _,Or.inl rfl⟩,fun t ht => by cases ht⟩

theorem Sound.pushNew {s : State} (h : Sound s) (t : ℕ → Task) : Sound (pushNew s t) :=
  ⟨h.busy.push pushes _,h.covered.push _⟩

theorem Sound.process {s : State} (h : Sound s) (count : ℕ) :
    Sound (processPendingMessages s count) := by
  unfold processPendingMessages
  induction count generalizing s with
  | zero => exact h
  | succ count ih =>
    rw [Function.iterate_succ_apply]
    exact ih (h.pushNew _)

theorem Sound.settle {s s' : State} (h : Sound s) (hl : s'.limiter = s.limiter)
    (hs : ∀ t, Settled s t → Settled s' t) : Sound s' := by
  refine ⟨by rw [hl]; exact h.busy,?_⟩
  rw [hl]
  exact fun t ht u hu => (h.covered t ht u hu).imp_left (hs u)

theorem Sound.step {s : State} (h : Sound s) (e : Event) : Sound (step s e) := by
  cases e with
  | message => exact h.pushNew (fun id => .expansion (.message id))
  | pendingRead count => exact h.process count
  | expanded owner =>
    simp only [PendingReplay.step]
    split
    · refine h.settle rfl (fun t ht => ?_)
      cases t with
      | replay id => exact ht
      | expansion o => exact List.mem_cons_of_mem _ ht
    · exact h
  | replayed id =>
    simp only [PendingReplay.step]
    split
    · refine h.settle rfl (fun t ht => ?_)
      cases t with
      | replay id' => exact List.mem_cons_of_mem _ ht
      | expansion o => exact ht
    · exact h
  | released t =>
    simp only [PendingReplay.step]
    split
    · rename_i ht
      exact ⟨h.busy.release pushes ht.1,h.covered.release (Or.inl ht.2)⟩
    · exact h

theorem not_replay_of_pushes (t u : Task) (h : pushes t = some u) : isReplay u = false := by
  cases t with
  | replay id => cases h; rfl
  | expansion o => cases h

theorem unfinished_pushNew (s : State) (t : ℕ → Task) :
    unfinishedReplays (pushNew s t) =
      unfinishedReplays s+(if isReplay (t s.nextId) then 1 else 0) :=
  count_push isReplay not_replay_of_pushes s.limiter (t s.nextId)

theorem unfinished_process (s : State) (count : ℕ) :
    unfinishedReplays (processPendingMessages s count) = unfinishedReplays s+count := by
  unfold processPendingMessages
  induction count generalizing s with
  | zero => rfl
  | succ count ih =>
    rw [Function.iterate_succ_apply, ih, unfinished_pushNew]
    simp only [isReplay, if_true]
    omega

theorem within_step {n : ℕ} {s : State} {e : Event} (hw : Within n s e)
    (h : unfinishedReplays s ≤ n) : unfinishedReplays (step s e) ≤ n := by
  cases e with
  | message =>
    have hc := unfinished_pushNew s (fun id => .expansion (.message id))
    simp only [isReplay, Bool.false_eq_true, if_false, Nat.add_zero] at hc
    exact hc.symm ▸ h
  | pendingRead count => exact (unfinished_process s count).symm ▸ hw
  | expanded owner =>
    simp only [step]
    split <;> exact h
  | replayed id =>
    simp only [step]
    split <;> exact h
  | released t =>
    simp only [step]
    split
    · exact Nat.le_trans (count_release isReplay not_replay_of_pushes s.limiter t) h
    · exact h

theorem isReplay_of_pushes {t u : Task} (h : pushes t = some u) : isReplay t = true := by
  cases t with
  | replay id => rfl
  | expansion o => cases h

theorem limit_le_unfinished {s : State} (h : Sound s) (hfull : s.limiter.active = expansionLimit)
    (hall : ∀ t ∈ s.limiter.slots, isReplay t = true) : expansionLimit ≤ unfinishedReplays s := by
  have hslots : s.limiter.slots.countP isReplay = s.limiter.slots.length :=
    List.countP_eq_length.mpr hall
  have hlen := h.busy.active_eq
  simp only [unfinishedReplays, tasks, List.countP_append]
  omega

theorem alive_of_few {s : State} (h : Sound s) (hn : unfinishedReplays s < expansionLimit) :
    Alive s := by
  constructor
  · intro hun
    by_contra hstuck
    rw [not_or] at hstuck
    have hne : s.limiter.slots ≠ [] := by
      intro hnil
      have hactive := h.busy.active_eq
      rw [hnil] at hactive
      have hq : s.limiter.queue = [] :=
        h.busy.working.resolve_right (by rw [hactive]; decide)
      exact hun (by simp [tasks, hq, hnil])
    have hwait : ∀ t ∈ s.limiter.slots, Waits pushes (Settled s) t := by
      intro t ht
      cases t with
      | replay id => exact ⟨_,rfl,fun hs => hstuck.1 ⟨_,ht,hs⟩⟩
      | expansion o => exact absurd ⟨_,ht,trivial⟩ hstuck.1
    have hleaf : ∀ t u, pushes t = some u → pushes u = none := by
      intro t u hu
      cases t with
      | replay id => cases hu; rfl
      | expansion o => cases hu
    obtain ⟨hfull,_⟩ := full_of_waits h.busy h.covered hleaf hne hwait
    have hle := limit_le_unfinished h hfull (fun t ht => by
      obtain ⟨u,hu,_⟩ := hwait t ht
      exact isReplay_of_pushes hu)
    omega
  · rintro ⟨hfull,hall⟩
    have hle := limit_le_unfinished h hfull (fun t ht => by
      obtain ⟨u,hu,_⟩ := hall t ht
      exact isReplay_of_pushes hu)
    omega

theorem alive_run {n : ℕ} (hn : n < expansionLimit) {es : List Event}
    (hm : Meets step (Within n) es started) : Alive (run step es started) := by
  have hinv := run_invariant (I := fun s => Sound s ∧ unfinishedReplays s ≤ n)
    (fun s e hw h => ⟨h.1.step e,within_step hw h.2⟩) es started hm
    ⟨sound_started,Nat.zero_le n⟩
  exact alive_of_few hinv.1 (by have := hinv.2; omega)

/-- Ten messages hold the slots while ten replays are queued; their
expansions end one by one. -/
def tenReplays : List Event :=
  List.replicate 10 .message++.pendingRead 10 ::
    (List.range 10).flatMap fun i =>
      [.expanded (.message i),.released (.expansion (.message i))]

instance (n : ℕ) (s : State) (e : Event) : Decidable (Within n s e) := by
  cases e <;> unfold Within <;> infer_instance

theorem tenReplays_within : Meets step (Within 10) tenReplays started := by decide +kernel

theorem tenReplays_stuck : AllWait (run step tenReplays started) := by
  unfold AllWait
  decide +kernel

/-- No state is stuck, in any run that keeps the unfinished replays within a
bound, exactly for the bounds below the number of slots. -/
theorem replay_completes_iff (n : ℕ) :
    (∀ es, Meets step (Within n) es started → ∀ pre, pre <+: es → Alive (run step pre started)) ↔
      n < expansionLimit := by
  constructor
  · intro h
    by_contra hn
    have hmono : ∀ s e, Within 10 s e → Within n s e := by
      intro s e hw
      have hten : 10 ≤ n := Nat.le_of_not_lt hn
      cases e with
      | pendingRead count => exact Nat.le_trans hw hten
      | _ => trivial
    have hm := meets_mono hmono tenReplays started tenReplays_within
    exact (h tenReplays hm tenReplays List.prefix_rfl).2 tenReplays_stuck
  · rintro hn es hm pre ⟨post,rfl⟩
    exact alive_run hn ((meets_append step (Within n) pre post started).mp hm).1

/-- One device with fifteen buffered messages, and nothing else going on. Five
replays and their expansions fill the slots; as they end, the other ten
replays do. -/
def fifteenBuffered : List Event :=
  .pendingRead 15 :: (List.range 5).flatMap fun i =>
    [.expanded (.replay i),.released (.expansion (.replay i)),.replayed i,.released (.replay i)]

theorem replay_deadlocks :
    ¬∀ es, ∀ pre, pre <+: es → Alive (run step pre started) := by
  intro h
  have hdead : AllWait (run step fifteenBuffered started) := by
    unfold AllWait
    decide +kernel
  exact (h fifteenBuffered _ List.prefix_rfl).2 hdead

end Iotistica.PendingReplay
