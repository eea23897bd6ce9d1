import Iotistica.GuardedRun
import Iotistica.LeaseRegister

/-!
# Electing the replica that monitors the broker

Each replica tries to set one key in Redis with `SET NX EX`. The one that
succeeds is the leader and renews the key every ten seconds; the others try
again after half a minute. A renewal that finds the key with another value
makes the leader resign, one that fails does not. Commands and answers travel
on their own: a command may run long after it was sent, also when its sender
has given it up, and its answer may be late or lost. Ids of replicas are
distinct here; the source makes them of the process id and the time.
-/

set_option autoImplicit false

namespace Iotistica.LeaderElection
open GuardedRun LeaseRegister

def ttlSeconds : ℕ := 20

def leaseMs : ℕ := ttlSeconds*1000

structure Call where
  request : Request
  answer : Option Bool
  deriving DecidableEq

/-- The fields of a replica, the calls it awaits, and the commands whose
promise was rejected before Redis ran them. -/
structure Replica where
  isLeader : Bool
  started : Bool
  renewTimer : Bool
  retryTimer : Bool
  calls : List Call
  strays : List Request
  deriving DecidableEq

def created : Replica := ⟨false,false,false,false,[],[]⟩

def send (q : Request) (s : Replica) : Replica := { s with calls := s.calls++[⟨q,none⟩] }

def tryAcquire (s : Replica) : Replica := send .take s

def scheduleRetry (s : Replica) : Replica :=
  if s.retryTimer ∨ ¬s.started then s else { s with retryTimer := true }

def startRenewLoop (s : Replica) : Replica := { s with renewTimer := true }

def becomeLeader (s : Replica) : Replica := startRenewLoop { s with isLeader := true }

def resignLeadership (s : Replica) : Replica :=
  scheduleRetry { s with isLeader := false, renewTimer := false }

def clearTimers (s : Replica) : Replica := { s with renewTimer := false, retryTimer := false }

def start (s : Replica) : Replica :=
  if s.started then s else tryAcquire { s with started := true }

def release (s : Replica) : Replica :=
  let s := clearTimers { s with started := false }
  if s.isLeader then send .giveBack s else s

def renew (s : Replica) : Replica := if s.renewTimer then send .extend s else s

def retry (s : Replica) : Replica :=
  if s.retryTimer then
    let s := { s with retryTimer := false }
    if s.started ∧ ¬s.isLeader then tryAcquire s else s
  else s

def answered (q : Request) (ok : Bool) (s : Replica) : Replica :=
  match q, ok with
  | .take, true => becomeLeader s
  | .take, false => scheduleRetry s
  | .extend, true => s
  | .extend, false => resignLeadership s
  | .giveBack, _ => { s with isLeader := false }

def rejected (q : Request) (s : Replica) : Replica :=
  match q with
  | .take => scheduleRetry s
  | .extend => s
  | .giveBack => { s with isLeader := false }

def ran (k : ℕ) (ok : Bool) (s : Replica) : Replica :=
  match s.calls[k]? with
  | some ⟨q,none⟩ => { s with calls := s.calls.set k ⟨q,some ok⟩ }
  | _ => s

def settle (k : ℕ) (s : Replica) : Replica :=
  match s.calls[k]? with
  | some ⟨q,some ok⟩ => answered q ok { s with calls := s.calls.eraseIdx k }
  | _ => s

def fail (k : ℕ) (s : Replica) : Replica :=
  match s.calls[k]? with
  | some ⟨q,some _⟩ => rejected q { s with calls := s.calls.eraseIdx k }
  | some ⟨q,none⟩ =>
    rejected q { s with calls := s.calls.eraseIdx k, strays := s.strays++[q] }
  | none => s

variable {I : Type*} [DecidableEq I]

structure System (I : Type*) where
  now : ℕ
  register : Register I
  confirmed : Ledger I
  replicas : I → Replica

/-- `execute` is Redis running the call at that place, `stray` its running a
command that the replica no longer waits for. -/
inductive Event (I : Type*) where
  | elapse (ms : ℕ)
  | start (i : I)
  | release (i : I)
  | renew (i : I)
  | retry (i : I)
  | execute (i : I) (k : ℕ)
  | settle (i : I) (k : ℕ)
  | fail (i : I) (k : ℕ)
  | stray (i : I) (k : ℕ)
  deriving DecidableEq

def System.on (s : System I) (i : I) (f : Replica → Replica) : System I :=
  { s with replicas := Function.update s.replicas i (f (s.replicas i)) }

def System.serve (s : System I) (i : I) (q : Request) : System I :=
  { s with
    register := q.serve leaseMs s.now i s.register
    confirmed := q.note s.now i s.register s.confirmed }

def step (s : System I) : Event I → System I
  | .elapse ms => { s with now := s.now+ms }
  | .start i => s.on i start
  | .release i => s.on i release
  | .renew i => s.on i renew
  | .retry i => s.on i retry
  | .execute i k =>
    match (s.replicas i).calls[k]? with
    | some ⟨q,none⟩ => (s.serve i q).on i (ran k (q.granted s.now i s.register))
    | _ => s
  | .settle i k => s.on i (settle k)
  | .fail i k => s.on i (fail k)
  | .stray i k =>
    match (s.replicas i).strays[k]? with
    | some q => (s.serve i q).on i (fun r => { r with strays := r.strays.eraseIdx k })
    | none => s

def init : System I := ⟨0,⟨none⟩,fun _ => none,fun _ => created⟩

@[simp] theorem on_confirmed (s : System I) (i : I) (f : Replica → Replica) :
    (s.on i f).confirmed = s.confirmed := rfl

@[simp] theorem on_self (s : System I) (i : I) (f : Replica → Replica) :
    (s.on i f).replicas i = f (s.replicas i) := by simp [System.on]

theorem on_other (s : System I) {i j : I} (hj : j ≠ i) (f : Replica → Replica) :
    (s.on i f).replicas j = s.replicas j := by simp [System.on, hj]

def Leased (s : System I) : Prop := Kept leaseMs s.now s.register s.confirmed

theorem leased_step {s : System I} (h : Leased s) (e : Event I) : Leased (step s e) := by
  cases e with
  | elapse ms => exact kept_later h ms
  | execute i k =>
    simp only [step]
    split
    · exact kept_serve h _ i
    · exact h
  | stray i k =>
    simp only [step]
    split
    · exact kept_serve h _ i
    · exact h
  | _ => exact h

theorem leased_run (es : List (Event I)) : Leased (run step es init) :=
  run_invariant (I := Leased) (fun _ e _ h => leased_step h e) es init (meets_any step es init)
    (kept_start leaseMs 0)

/-- Nothing of this replica gives the key back, and a success it has heard of
or will hear of is in the ledger. -/
structure Holding (s : Replica) (c : Option ℕ) : Prop where
  calls : ∀ x ∈ s.calls, x.request ≠ .giveBack
  strays : .giveBack ∉ s.strays
  leader : s.isLeader → c.isSome
  granted : ⟨.take,some true⟩ ∈ s.calls → c.isSome

theorem Holding.send {s : Replica} {c : Option ℕ} (h : Holding s c) {q : Request}
    (hq : q ≠ .giveBack) : Holding (send q s) c := by
  constructor
  · intro x hx
    simp only [LeaderElection.send, List.mem_append, List.mem_singleton] at hx
    rcases hx with hx | rfl
    · exact h.calls x hx
    · exact hq
  · exact h.strays
  · exact h.leader
  · intro hx
    simp only [LeaderElection.send, List.mem_append, List.mem_singleton, Call.mk.injEq,
      reduceCtorEq, and_false, or_false] at hx
    exact h.granted hx

theorem Holding.less {s t : Replica} {c : Option ℕ} (h : Holding s c)
    (hcalls : t.calls.Sublist s.calls) (hstrays : ∀ q ∈ t.strays, q ∈ s.strays ∨ q ≠ .giveBack)
    (hleader : t.isLeader → s.isLeader ∨ ⟨.take,some true⟩ ∈ s.calls) : Holding t c := by
  constructor
  · intro x hx
    exact h.calls x (hcalls.subset hx)
  · intro hx
    rcases hstrays _ hx with hs | hs
    · exact h.strays hs
    · exact hs rfl
  · intro hl
    rcases hleader hl with hs | hs
    · exact h.leader hs
    · exact h.granted hs
  · intro hx
    exact h.granted (hcalls.subset hx)

theorem Holding.scheduleRetry {s : Replica} {c : Option ℕ} (h : Holding s c) :
    Holding (scheduleRetry s) c := by
  unfold LeaderElection.scheduleRetry
  split
  · exact h
  · exact ⟨h.calls,h.strays,h.leader,h.granted⟩

theorem Holding.tryStart {s : Replica} {c : Option ℕ} (h : Holding s c) : Holding (start s) c := by
  unfold start
  split
  · exact h
  · have hs : Holding { s with started := true } c := ⟨h.calls,h.strays,h.leader,h.granted⟩
    exact hs.send (by simp)

theorem Holding.renew {s : Replica} {c : Option ℕ} (h : Holding s c) : Holding (renew s) c := by
  unfold LeaderElection.renew
  split
  · exact h.send (by simp)
  · exact h

theorem Holding.retry {s : Replica} {c : Option ℕ} (h : Holding s c) : Holding (retry s) c := by
  have hs : Holding { s with retryTimer := false } c := ⟨h.calls,h.strays,h.leader,h.granted⟩
  unfold LeaderElection.retry
  split
  · simp only
    split
    · exact hs.send (by simp)
    · exact hs
  · exact h

theorem Holding.settle {s : Replica} {c : Option ℕ} (h : Holding s c) (k : ℕ) :
    Holding (settle k s) c := by
  unfold LeaderElection.settle
  split
  · rename_i q ok hk
    have hmem : (⟨q,some ok⟩ : Call) ∈ s.calls := List.mem_of_getElem? hk
    have hrest : Holding { s with calls := s.calls.eraseIdx k } c :=
      h.less (List.eraseIdx_sublist _ _) (fun _ hq => .inl hq) .inl
    cases q with
    | take =>
      cases ok with
      | true =>
        exact h.less (List.eraseIdx_sublist _ _) (fun _ hq => .inl hq) (fun _ => .inr hmem)
      | false => exact hrest.scheduleRetry
    | extend =>
      cases ok with
      | true => exact hrest
      | false =>
        exact Holding.scheduleRetry
          (hrest.less (List.Sublist.refl _) (fun _ hq => .inl hq) (by simp))
    | giveBack => exact absurd rfl (h.calls _ hmem)
  · exact h

theorem Holding.fail {s : Replica} {c : Option ℕ} (h : Holding s c) (k : ℕ) :
    Holding (fail k s) c := by
  have hrejected : ∀ (q : Request) (t : Replica), q ≠ .giveBack → Holding t c →
      Holding (rejected q t) c := by
    intro q t hq ht
    cases q with
    | take => exact ht.scheduleRetry
    | extend => exact ht
    | giveBack => exact absurd rfl hq
  unfold LeaderElection.fail
  split
  · rename_i q ok hk
    have hq : q ≠ .giveBack := h.calls _ (List.mem_of_getElem? hk)
    exact hrejected q _ hq (h.less (List.eraseIdx_sublist _ _) (fun _ hq => .inl hq) .inl)
  · rename_i q hk
    have hq : q ≠ .giveBack := h.calls _ (List.mem_of_getElem? hk)
    have hstrays : ∀ x ∈ s.strays++[q], x ∈ s.strays ∨ x ≠ .giveBack := by
      intro x hx
      simp only [List.mem_append, List.mem_singleton] at hx
      rcases hx with hx | rfl
      · exact .inl hx
      · exact .inr hq
    exact hrejected q _ hq (h.less (List.eraseIdx_sublist _ _) hstrays .inl)
  · exact h

theorem Holding.ran {s : Replica} {c c' : Option ℕ} (h : Holding s c) {k : ℕ} {q : Request}
    {ok : Bool} (hk : s.calls[k]? = some ⟨q,none⟩) (hc : c.isSome → c'.isSome)
    (hok : q = .take → ok = true → c'.isSome) : Holding (ran k ok s) c' := by
  have hq : q ≠ .giveBack := h.calls _ (List.mem_of_getElem? hk)
  have hmem : ∀ x ∈ s.calls.set k ⟨q,some ok⟩, x ∈ s.calls ∨ x = ⟨q,some ok⟩ := by
    intro x hx
    exact List.mem_or_eq_of_mem_set hx
  simp only [LeaderElection.ran, hk]
  constructor
  · intro x hx
    rcases hmem x hx with hx | rfl
    · exact h.calls x hx
    · exact hq
  · exact h.strays
  · exact fun hl => hc (h.leader hl)
  · intro hx
    rcases hmem _ hx with hx | hx
    · exact hc (h.granted hx)
    · simp only [Call.mk.injEq, Option.some.injEq] at hx
      exact hok hx.1.symm hx.2.symm

theorem holding_step {s : System I} {i : I} (h : Holding (s.replicas i) (s.confirmed i))
    (e : Event I) (he : e ≠ .release i) :
    Holding ((step s e).replicas i) ((step s e).confirmed i) := by
  have hnote : ∀ (j : I) (q : Request), (i = j → q ≠ .giveBack) → (s.confirmed i).isSome →
      ((s.serve j q).confirmed i).isSome := fun j q hq hc =>
    note_isSome q s.now s.register s.confirmed j i hq hc
  have hon : ∀ (j : I) (f : Replica → Replica),
      (i = j → Holding (f (s.replicas i)) (s.confirmed i)) →
      Holding ((s.on j f).replicas i) ((s.on j f).confirmed i) := by
    intro j f hf
    by_cases hj : i = j
    · subst hj
      simpa using hf rfl
    · rw [on_other s hj]
      exact h
  have hother : ∀ (j : I) (q : Request) (f : Replica → Replica), i ≠ j →
      Holding (((s.serve j q).on j f).replicas i) (((s.serve j q).on j f).confirmed i) := by
    intro j q f hj
    have hc : (s.serve j q).confirmed i = s.confirmed i :=
      note_other q s.now s.register s.confirmed hj
    rw [on_other _ hj, on_confirmed, hc]
    exact h
  cases e with
  | elapse ms => exact h
  | start j => exact hon j _ (fun _ => h.tryStart)
  | release j =>
    apply hon j
    rintro rfl
    exact absurd rfl he
  | renew j => exact hon j _ (fun _ => h.renew)
  | retry j => exact hon j _ (fun _ => h.retry)
  | settle j k => exact hon j _ (fun _ => h.settle k)
  | fail j k => exact hon j _ (fun _ => h.fail k)
  | execute j k =>
    simp only [step]
    split
    · rename_i q hk
      by_cases hj : i = j
      · subst hj
        have hq : q ≠ .giveBack := h.calls _ (List.mem_of_getElem? hk)
        rw [on_self]
        apply h.ran hk (hnote i q (fun _ => hq))
        rintro rfl hg
        exact note_take s.now s.register s.confirmed i hg
      · exact hother j q _ hj
    · exact h
  | stray j k =>
    simp only [step]
    split
    · rename_i q hk
      by_cases hj : i = j
      · subst hj
        have hq : q ≠ .giveBack := by
          rintro rfl
          exact h.strays (List.mem_of_getElem? hk)
        rw [on_self]
        constructor
        · exact h.calls
        · intro hx
          exact h.strays (List.mem_of_mem_eraseIdx hx)
        · exact fun hl => hnote i q (fun _ => hq) (h.leader hl)
        · exact fun hx => hnote i q (fun _ => hq) (h.granted hx)
      · exact hother j q _ hj
    · exact h

theorem holding_run {es : List (Event I)} {i : I} (h : Event.release i ∉ es) :
    Holding ((run step es init).replicas i) ((run step es init).confirmed i) := by
  have hm : Meets step (fun _ e => e ≠ Event.release i) es init := by
    apply meets_of_split
    rintro pre e post rfl rfl
    simp at h
  have hstart : Holding ((init : System I).replicas i) ((init : System I).confirmed i) := by
    constructor <;> simp [init, created]
  exact run_invariant (I := fun s => Holding (s.replicas i) (s.confirmed i))
    (fun s e he hs => holding_step hs e he) es init hm hstart

/-- Two replicas take themselves for the leader at once only while the one
that was confirmed first has been out of its lease, and was out of it already
when the other was confirmed. -/
theorem leaders_a_lease_apart (es : List (Event I)) (i j : I) (hij : i ≠ j)
    (hi : Event.release i ∉ es) (hj : Event.release j ∉ es)
    (hli : ((run step es init).replicas i).isLeader)
    (hlj : ((run step es init).replicas j).isLeader) :
    ∃ a b, (run step es init).confirmed i = some a ∧ (run step es init).confirmed j = some b ∧
      ((a+leaseMs ≤ b ∧ a+leaseMs ≤ (run step es init).now) ∨
        (b+leaseMs ≤ a ∧ b+leaseMs ≤ (run step es init).now)) := by
  have hkept := leased_run es
  obtain ⟨a,ha⟩ := Option.isSome_iff_exists.mp ((holding_run hi).leader hli)
  obtain ⟨b,hb⟩ := Option.isSome_iff_exists.mp ((holding_run hj).leader hlj)
  have hpa := hkept.past i a ha
  have hpb := hkept.past j b hb
  refine ⟨a,b,ha,hb,?_⟩
  rcases hkept.apart i j a b hij ha hb with hab | hab
  · exact .inl ⟨hab,by omega⟩
  · exact .inr ⟨hab,by omega⟩

def outage : List (Event Bool) :=
  [.start true,.execute true 0,.settle true 0,.renew true,.fail true 0,.elapse 20000,
    .start false,.execute false 0,.settle false 0]

/-- The first leader is cut off from Redis and does not notice. -/
theorem leaders_a_lease_apart_outage :
    ∃ a b, (run step outage init).confirmed true = some a ∧
      (run step outage init).confirmed false = some b ∧
      ((a+leaseMs ≤ b ∧ a+leaseMs ≤ (run step outage init).now) ∨
        (b+leaseMs ≤ a ∧ b+leaseMs ≤ (run step outage init).now)) :=
  leaders_a_lease_apart outage true false (by decide) (by decide) (by decide) (by decide)
    (by decide)

end Iotistica.LeaderElection
