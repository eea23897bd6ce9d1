import Iotistica.GuardedRun
import Mathlib.Logic.Function.Basic
import Mathlib.Data.Nat.Notation

/-!
# Requests of a Modbus client

Requests are serialised by a chain of promises. A reset replaces the chain
and the instance of the protocol library together, so both carry the
generation as their number; functions left on an old chain still run when
it moves on, and they take the instance that is current then. How long a
request stays outstanding is up to the device, and an external timeout
rejects its caller only. Delays of the reconnect timer are left out: it may
fire whenever it is set.
-/

set_option autoImplicit false

namespace Iotistica.ModbusLock
open Iotistica.GuardedRun

/-- A function handed to `lock`. It throws before its request when the
function code is not supported or a value cannot be serialised. -/
structure Work where
  sends : Bool
  deriving DecidableEq

/-- The functions that wait on a chain and the instance on which its
current request is outstanding. -/
structure Chain where
  waiting : List Work
  running : Option ℕ
  deriving DecidableEq

def Chain.empty : Chain := ⟨[],none⟩

structure Client where
  generation : ℕ
  chains : ℕ → Chain
  isOpen : ℕ → Bool
  reconnectTimer : Bool
  consecutiveFailures : ℕ

def Client.fresh : Client := ⟨0,fun _ => .empty,fun _ => false,false,0⟩

inductive Event where
  /-- `readRegister`, `readRegisterBatch` or `writeRegister` calls `lock`. -/
  | lock (work : Work)
  | start (chain : ℕ)
  | settle (chain : ℕ)
  | timeout
  | readSucceeded
  | readFailed
  | fatalError
  | socketClosed
  | pollOffline
  | timerFires
  | connected (client : ℕ)
  | connectFailed
  | disconnect

def lock (s : Client) (work : Work) : Client :=
  let chain := s.chains s.generation
  { s with
    chains := Function.update s.chains s.generation
      { chain with waiting := chain.waiting++[work] } }

/-- The next function of a chain whose current one has settled. A port that
is not open rejects the request at once. -/
def startNext (s : Client) (g : ℕ) : Client :=
  match (s.chains g).running, (s.chains g).waiting with
  | none, work::rest =>
    { s with
      chains := Function.update s.chains g
        ⟨rest,if work.sends && s.isOpen s.generation then some s.generation else none⟩ }
  | _, _ => s

def settle (s : Client) (g : ℕ) : Client :=
  { s with chains := Function.update s.chains g { s.chains g with running := none } }

def forceResetClient (s : Client) : Client :=
  { s with
    reconnectTimer := false
    isOpen := Function.update s.isOpen s.generation false
    generation := s.generation+1
    chains := Function.update s.chains (s.generation+1) .empty }

def scheduleReconnect (s : Client) : Client := { s with reconnectTimer := true }

def onReadFailure (s : Client) : Client :=
  let failed := { s with consecutiveFailures := s.consecutiveFailures+1 }
  if 3 ≤ failed.consecutiveFailures then scheduleReconnect (forceResetClient failed) else failed

def handleClose (s : Client) : Client :=
  scheduleReconnect
    { s with
      isOpen := Function.update s.isOpen s.generation false
      consecutiveFailures := s.consecutiveFailures+1 }

def tryEnsureConnected (s : Client) : Client :=
  if s.isOpen s.generation then s else scheduleReconnect s

def connectSucceeded (s : Client) (client : ℕ) : Client :=
  { s with
    isOpen := Function.update s.isOpen client true
    reconnectTimer := false
    consecutiveFailures := 0 }

def step (s : Client) : Event → Client
  | .lock work => lock s work
  | .start g => startNext s g
  | .settle g => settle s g
  | .timeout => s
  | .readSucceeded => { s with consecutiveFailures := 0 }
  | .readFailed => onReadFailure s
  | .fatalError => scheduleReconnect s
  | .socketClosed => handleClose s
  | .pollOffline => tryEnsureConnected s
  | .timerFires => if s.reconnectTimer then forceResetClient s else s
  | .connected client => connectSucceeded s client
  | .connectFailed => scheduleReconnect s
  | .disconnect =>
    { s with
      reconnectTimer := false
      isOpen := Function.update s.isOpen s.generation false }

/-- No instance has two requests outstanding. A chain has at most one, so
the two would be of different chains. -/
def Exclusive (s : Client) : Prop :=
  ∀ g h c, (s.chains g).running = some c → (s.chains h).running = some c → g = h

def resets (s : Client) : Event → Bool
  | .readFailed => decide (3 ≤ s.consecutiveFailures+1)
  | .timerFires => s.reconnectTimer
  | _ => false

/-- No function waits on the chain when it is replaced. The one that runs
may still be outstanding on the old instance. -/
def Drained (s : Client) (e : Event) : Prop :=
  resets s e = true → (s.chains s.generation).waiting = []

instance Drained.decidable (s : Client) (e : Event) : Decidable (Drained s e) :=
  inferInstanceAs (Decidable (_ → _))

/-- Old chains have nothing left to start, and what a chain has outstanding
is on the instance of its own generation. -/
structure Separate (s : Client) : Prop where
  retired : ∀ g < s.generation, (s.chains g).waiting = []
  own : ∀ g c, (s.chains g).running = some c → c = g
  unborn : ∀ g, s.generation < g → s.chains g = .empty

theorem separate_fresh : Separate .fresh :=
  ⟨fun _ h => absurd h (Nat.not_lt_zero _),fun _ _ h => absurd h (by simp [Client.fresh, Chain.empty]),
    fun _ _ => rfl⟩

theorem Separate.exclusive {s : Client} (h : Separate s) : Exclusive s := by
  intro g k c hg hk
  rw [← h.own g c hg, ← h.own k c hk]

theorem Separate.congr {s t : Client} (h : Separate s) (hg : t.generation = s.generation)
    (hc : t.chains = s.chains) : Separate t :=
  ⟨fun g hlt => by rw [hc]; exact h.retired g (hg ▸ hlt),
    fun g c hr => h.own g c (hc ▸ hr),
    fun g hlt => by rw [hc]; exact h.unborn g (hg ▸ hlt)⟩

theorem Separate.update {s t : Client} (h : Separate s) (hg : t.generation = s.generation) {g : ℕ}
    {chain : Chain} (hc : t.chains = Function.update s.chains g chain)
    (hretired : g < s.generation → chain.waiting = []) (hown : ∀ c, chain.running = some c → c = g)
    (hunborn : s.generation < g → chain = .empty) : Separate t := by
  refine ⟨fun k hlt => ?_,fun k c hr => ?_,fun k hlt => ?_⟩
  · rw [hc]
    rw [hg] at hlt
    by_cases hk : k = g
    · subst hk
      rw [Function.update_self]
      exact hretired hlt
    · rw [Function.update_of_ne hk]
      exact h.retired k hlt
  · rw [hc] at hr
    by_cases hk : k = g
    · subst hk
      rw [Function.update_self] at hr
      exact hown c hr
    · rw [Function.update_of_ne hk] at hr
      exact h.own k c hr
  · rw [hc]
    rw [hg] at hlt
    by_cases hk : k = g
    · subst hk
      rw [Function.update_self]
      exact hunborn hlt
    · rw [Function.update_of_ne hk]
      exact h.unborn k hlt

theorem Separate.lock {s : Client} (h : Separate s) (work : Work) : Separate (lock s work) :=
  h.update rfl rfl (fun hlt => absurd hlt (Nat.lt_irrefl _)) (h.own s.generation)
    (fun hlt => absurd hlt (Nat.lt_irrefl _))

theorem Separate.startNext {s : Client} (h : Separate s) (g : ℕ) : Separate (startNext s g) := by
  unfold ModbusLock.startNext
  split
  · rename_i work rest hr hw
    -- only the current chain has something to start
    have hcur : g = s.generation := by
      rcases Nat.lt_trichotomy g s.generation with hlt | heq | hgt
      · rw [h.retired g hlt] at hw
        cases hw
      · exact heq
      · rw [h.unborn g hgt] at hw
        cases hw
    subst hcur
    refine h.update rfl rfl (fun hlt => absurd hlt (Nat.lt_irrefl _)) (fun c hc => ?_)
      (fun hlt => absurd hlt (Nat.lt_irrefl _))
    simp only at hc
    split at hc
    · exact (Option.some.inj hc).symm
    · cases hc
  · exact h

theorem Separate.settle {s : Client} (h : Separate s) (g : ℕ) : Separate (settle s g) := by
  refine h.update rfl rfl (h.retired g) (fun c hc => ?_) (fun hlt => ?_)
  · cases hc
  · rw [h.unborn g hlt]
    rfl

theorem Separate.reset {s : Client} (h : Separate s)
    (hd : (s.chains s.generation).waiting = []) : Separate (forceResetClient s) := by
  have hne : ∀ k, k ≠ s.generation+1 → (forceResetClient s).chains k = s.chains k :=
    fun k hk => Function.update_of_ne hk ..
  have hself : (forceResetClient s).chains (s.generation+1) = .empty := Function.update_self ..
  have hgen : (forceResetClient s).generation = s.generation+1 := rfl
  refine ⟨fun k hlt => ?_,fun k c hr => ?_,fun k hlt => ?_⟩
  · rw [hgen] at hlt
    rw [hne k (Nat.ne_of_lt hlt)]
    rcases Nat.lt_succ_iff_lt_or_eq.mp hlt with hlt | rfl
    · exact h.retired k hlt
    · exact hd
  · by_cases hk : k = s.generation+1
    · rw [hk, hself] at hr
      cases hr
    · rw [hne k hk] at hr
      exact h.own k c hr
  · rw [hgen] at hlt
    rw [hne k (Nat.ne_of_gt hlt)]
    exact h.unborn k (Nat.lt_of_succ_lt hlt)

theorem Separate.step {s : Client} {e : Event} (hd : Drained s e) (h : Separate s) :
    Separate (step s e) := by
  cases e with
  | lock work => exact h.lock work
  | start g => exact h.startNext g
  | settle g => exact h.settle g
  | timeout => exact h
  | readSucceeded => exact h.congr rfl rfl
  | readFailed =>
    show Separate (onReadFailure s)
    unfold onReadFailure
    by_cases hf : 3 ≤ s.consecutiveFailures+1
    · have hw := hd (by simpa [resets] using hf)
      simp only [hf, if_true]
      have hr : Separate (forceResetClient
          { s with consecutiveFailures := s.consecutiveFailures+1 }) :=
        (h.congr (t := { s with consecutiveFailures := s.consecutiveFailures+1 }) rfl rfl).reset hw
      exact hr.congr rfl rfl
    · simp only [hf, if_false]
      exact h.congr rfl rfl
  | fatalError => exact h.congr rfl rfl
  | socketClosed => exact h.congr rfl rfl
  | pollOffline =>
    show Separate (tryEnsureConnected s)
    unfold tryEnsureConnected
    split
    · exact h
    · exact h.congr rfl rfl
  | timerFires =>
    show Separate (if s.reconnectTimer then forceResetClient s else s)
    by_cases ht : s.reconnectTimer = true
    · rw [if_pos ht]
      exact h.reset (hd ht)
    · rw [if_neg ht]
      exact h
  | connected client => exact h.congr rfl rfl
  | connectFailed => exact h.congr rfl rfl
  | disconnect => exact h.congr rfl rfl

/-- Over every interleaving whose resets find nothing waiting, no instance
ever has two requests outstanding. -/
theorem one_request_at_a_time (es : List Event) (h : Meets step Drained es .fresh) :
    ∀ pre, pre <+: es → Exclusive (run step pre .fresh) := by
  rintro pre ⟨post,rfl⟩
  have hm := ((meets_append step Drained pre post .fresh).mp h).1
  exact (run_invariant (I := Separate) (fun _ _ hd hs => hs.step hd) pre _ hm
    separate_fresh).exclusive

/-- A read that hangs through a reset and a reconnect beside a new read. -/
def hungRead : List Event :=
  [.connected 0,.lock ⟨true⟩,.start 0,.timeout,.readFailed,.readFailed,.readFailed,
    .timerFires,.connected 2,.lock ⟨true⟩,.start 2]

theorem hung_read_beside_new_read :
    Meets step Drained hungRead .fresh ∧ Exclusive (run step hungRead .fresh) := by
  have hm : Meets step Drained hungRead .fresh := by decide
  exact ⟨hm,one_request_at_a_time _ hm _ List.prefix_rfl⟩

/-- Two halves of a batch are read at once and the first hangs. After the
reset and the reconnect the hung read settles, the second half starts on
the new instance, and the next poll starts there as well. -/
theorem waiting_half_joins_next_poll :
    ¬ Exclusive (run step [.connected 0,.lock ⟨true⟩,.lock ⟨true⟩,.start 0,.timeout,.timeout,
      .readFailed,.readFailed,.readFailed,.timerFires,.connected 2,.settle 0,.start 0,.lock ⟨true⟩,
      .start 2] .fresh) := by
  intro h
  have h02 := h 0 2 2 (by decide) (by decide)
  exact absurd h02 (by decide)

end Iotistica.ModbusLock
