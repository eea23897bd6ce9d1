import Iotistica.JsText
import Iotistica.OrderedMap
import Iotistica.GuardedRun
import Mathlib.Data.Rat.Floor

/-!
# Retry manager

Failures of an operation are counted under its key, in memory and in the
`retry_state` table. Times are in milliseconds. The two stores are written
one after the other; here every write to the table succeeds. The time of
the last update of a row is written and never read and is left out. A log
beside a run says which attempts were let through and how they ended.
-/

set_option autoImplicit false

namespace Iotistica.RetryManager
open Iotistica Iotistica.JsText Iotistica.GuardedRun

structure RetryState where
  count : ℕ
  nextRetry : ℤ
  lastError : String
  terminal : Bool
  retryable : Bool
  deriving DecidableEq

structure RetryPolicy where
  maxRetries : ℕ
  backoffIntervals : List ℕ

def defaultPolicy : RetryPolicy where
  maxRetries := 10
  backoffIntervals := [10*1000,20*1000,40*1000,80*1000,160*1000,300*1000]

def dockerPolicy : RetryPolicy where
  maxRetries := 5
  backoffIntervals := [2*1000,5*1000,10*1000,20*1000,30*1000]

/-- A policy lets an operation fail at least once and has an interval to
wait after it. -/
structure RetryPolicy.Valid (policy : RetryPolicy) : Prop where
  retries : 0 < policy.maxRetries
  intervals : policy.backoffIntervals ≠ []

theorem defaultPolicy_valid : defaultPolicy.Valid := ⟨by decide,by decide⟩

theorem dockerPolicy_valid : dockerPolicy.Valid := ⟨by decide,by decide⟩

def isRetryableError (error : String) : Bool :=
  let errorLower := toLowerCase error
  if includes errorLower "401" || includes errorLower "unauthorized" then false
  else if includes errorLower "403" || includes errorLower "forbidden" then false
  else if includes errorLower "invalid credentials" then false
  else if includes errorLower "authentication failed" then false
  else if includes errorLower "invalid subnet" then false
  else if includes errorLower "invalid cidr" then false
  else if includes errorLower "invalid parameter" then false
  else if includes errorLower "validation error" then false
  else if includes errorLower "bad request" && includes errorLower "400" then false
  else if includes errorLower "already exists" then false
  else if includes errorLower "duplicate" then false
  else if includes errorLower "enotfound" then true
  else if includes errorLower "econnrefused" then true
  else if includes errorLower "econnreset" then true
  else if includes errorLower "etimedout" then true
  else if includes errorLower "network" then true
  else if includes errorLower "503" || includes errorLower "service unavailable" then true
  else if includes errorLower "502" || includes errorLower "bad gateway" then true
  else if includes errorLower "504" || includes errorLower "gateway timeout" then true
  else if includes errorLower "429" || includes errorLower "too many requests" then true
  else true

structure RetryStateRecord where
  count : ℕ
  next_retry : ℤ
  last_error : String
  terminal : ℕ
  retryable : ℕ
  deriving DecidableEq

def toRecord (state : RetryState) : RetryStateRecord where
  count := state.count
  next_retry := state.nextRetry
  last_error := state.lastError
  terminal := if state.terminal then 1 else 0
  retryable := if state.retryable then 1 else 0

def ofRecord (row : RetryStateRecord) : RetryState where
  count := row.count
  nextRetry := row.next_retry
  lastError := row.last_error
  terminal := row.terminal == 1
  retryable := row.retryable != 0

theorem ofRecord_toRecord (state : RetryState) : ofRecord (toRecord state) = state := by
  obtain ⟨count,nextRetry,lastError,terminal,retryable⟩ := state
  cases terminal <;> cases retryable <;> rfl

structure Manager where
  memory : OrderedMap String RetryState
  table : OrderedMap String RetryStateRecord

def boot : Manager := ⟨OrderedMap.empty,OrderedMap.empty⟩

/-- `random` is what the runtime's generator returned. -/
abbrev Random := { r : ℚ // 0 ≤ r ∧ r < 1 }

def shouldRetry (policy : RetryPolicy) (s : Manager) (key : String) (now : ℤ) : Bool :=
  match s.memory.get? key with
  | none => true
  | some state =>
    if state.terminal then false
    else if state.count ≥ policy.maxRetries then false
    else decide (now ≥ state.nextRetry)

/-- The interval after failure number `count`, capped at the last one. -/
def backoffInterval (policy : RetryPolicy) (count : ℕ) : ℕ :=
  policy.backoffIntervals.getD (min (count-1) (policy.backoffIntervals.length-1)) 0

def backoffMs (policy : RetryPolicy) (count : ℕ) (random : Random) : ℤ :=
  let jitter : ℚ := random.val*(3/10)+85/100
  ⌊(backoffInterval policy count : ℚ)*jitter⌋

def failedState (policy : RetryPolicy) (state : RetryState) (error : String) (isRetryable : Bool)
    (now : ℤ) (random : Random) : RetryState :=
  if isRetryable then
    let count := state.count+1
    let state := { state with count := count, lastError := error, retryable := true }
    if count ≥ policy.maxRetries then { state with terminal := true }
    else { state with nextRetry := now+backoffMs policy count random }
  else { state with terminal := true, retryable := false, lastError := error }

def store (s : Manager) (key : String) (state : RetryState) : Manager :=
  ⟨s.memory.set key state,s.table.set key (toRecord state)⟩

def classify (error : String) (retryable : Option Bool) : Bool :=
  retryable.getD (isRetryableError error)

def recordFailure (policy : RetryPolicy) (s : Manager) (key error : String)
    (retryable : Option Bool) (now : ℤ) (random : Random) : Manager :=
  let state := (s.memory.get? key).getD ⟨0,now,"",false,true⟩
  store s key (failedState policy state error (classify error retryable) now random)

/-- `recordSuccess` and `clearState` do the same to both stores. -/
def clearState (s : Manager) (key : String) : Manager := ⟨s.memory.delete key,s.table.delete key⟩

def recordSuccess (s : Manager) (key : String) : Manager := clearState s key

def clearAllStates (_ : Manager) : Manager := ⟨OrderedMap.empty,OrderedMap.empty⟩

def loadStateFromDatabase (table : OrderedMap String RetryStateRecord) :
    OrderedMap String RetryState :=
  OrderedMap.empty.assignAll (table.mapValues ofRecord).entries

def restart (s : Manager) : Manager := ⟨loadStateFromDatabase s.table,s.table⟩

def isTerminal (s : Manager) (key : String) : Bool :=
  match s.memory.get? key with
  | some state => state.terminal
  | none => false

inductive Outcome where
  | success
  | failure (error : String) (retryable : Option Bool) (at' : ℤ) (random : Random)
  | interrupted

inductive Event where
  | attempt (key : String) (start : ℤ) (outcome : Outcome)
  | clear (key : String)
  | clearAll
  | restart

def finish (policy : RetryPolicy) (s : Manager) (key : String) : Outcome → Manager
  | .success => recordSuccess s key
  | .failure error retryable at' random => recordFailure policy s key error retryable at' random
  | .interrupted => restart s

def next (policy : RetryPolicy) (s : Manager) : Event → Manager
  | .attempt key start outcome =>
    if shouldRetry policy s key start then finish policy s key outcome else s
  | .clear key => clearState s key
  | .clearAll => clearAllStates s
  | .restart => restart s

end Iotistica.RetryManager

namespace Iotistica.RetryDiscipline
open Iotistica Iotistica.GuardedRun Iotistica.RetryManager

inductive Note where
  | began (key : String) (time : ℤ)
  | failed (key : String) (time : ℤ) (retryable : Bool)
  | reset (key : String)
  | resetAll

def ended (key : String) : Outcome → List Note
  | .success => [.reset key]
  | .failure error retryable at' _ => [.failed key at' (classify error retryable)]
  | .interrupted => []

def notes (policy : RetryPolicy) (s : Manager) : Event → List Note
  | .attempt key start outcome =>
    if shouldRetry policy s key start then .began key start::ended key outcome else []
  | .clear key => [.reset key]
  | .clearAll => [.resetAll]
  | .restart => []

def nextLogged (policy : RetryPolicy) (w : Manager × List Note) (e : Event) :
    Manager × List Note :=
  (next policy w.1 e,w.2++notes policy w.1 e)

/-- Failures since the last success or clear: how many with a retryable
error, when the last of them was, and whether one was not retryable. -/
structure Account where
  failures : ℕ
  last : Option ℤ
  fatal : Bool

def blank : Account := ⟨0,none,false⟩

def book (key : String) (acc : Account) : Note → Account
  | .began _ _ => acc
  | .failed key' time retryable =>
    if key' = key then
      if retryable then ⟨acc.failures+1,some time,acc.fatal⟩ else { acc with fatal := true }
    else acc
  | .reset key' => if key' = key then blank else acc
  | .resetAll => blank

def account (key : String) (log : List Note) : Account := log.foldl (book key) blank

def Spent (policy : RetryPolicy) (acc : Account) : Prop :=
  acc.fatal = true ∨ policy.maxRetries ≤ acc.failures

def leastBackoff (policy : RetryPolicy) (count : ℕ) : ℤ :=
  ⌊(85/100 : ℚ)*(backoffInterval policy count : ℚ)⌋

structure Disciplined (policy : RetryPolicy) (s : Manager) (log : List Note) : Prop where
  bounded : ∀ key pre, pre <+: log → (account key pre).failures ≤ policy.maxRetries
  guarded : ∀ key pre time post, log = pre++Note.began key time::post →
    ¬Spent policy (account key pre)
  spaced : ∀ key pre time post, log = pre++Note.began key time::post →
    ∀ failure ∈ (account key pre).last,
      failure+leastBackoff policy (account key pre).failures ≤ time
  flagged : ∀ key, isTerminal s key = true ↔ Spent policy (account key log)
  stored : ∀ key, s.table.get? key = (s.memory.get? key).map toRecord

structure Tracks (policy : RetryPolicy) (state : RetryState) (acc : Account) : Prop where
  count : state.count = acc.failures
  bound : acc.failures ≤ policy.maxRetries
  flag : state.terminal = true ↔ Spent policy acc
  wait : ¬Spent policy acc → ∀ failure ∈ acc.last,
    failure+leastBackoff policy acc.failures ≤ state.nextRetry

def Follows (policy : RetryPolicy) (entry : Option RetryState) (acc : Account) : Prop :=
  match entry with
  | none => acc = blank
  | some state => Tracks policy state acc

theorem backoffMs_ge (policy : RetryPolicy) (count : ℕ) (random : Random) :
    leastBackoff policy count ≤ backoffMs policy count random := by
  unfold leastBackoff backoffMs
  apply Int.floor_le_floor
  have hr := random.property.1
  have hi : (0 : ℚ) ≤ (backoffInterval policy count : ℚ) := by positivity
  rw [mul_comm]
  apply mul_le_mul_of_nonneg_left _ hi
  linarith

variable {policy : RetryPolicy}

theorem follows_bound {entry : Option RetryState} {acc : Account}
    (h : Follows policy entry acc) : acc.failures ≤ policy.maxRetries := by
  cases entry with
  | none =>
    rw [show acc = blank from h]
    exact Nat.zero_le _
  | some state => exact h.bound

/-- An attempt is let through only where the account is not spent, and only
after the wait. -/
theorem shouldRetry_follows (hv : policy.Valid) {s : Manager} {key : String} {now : ℤ}
    {acc : Account} (h : Follows policy (s.memory.get? key) acc)
    (hr : shouldRetry policy s key now = true) :
    ¬Spent policy acc ∧ ∀ failure ∈ acc.last,
      failure+leastBackoff policy acc.failures ≤ now := by
  unfold shouldRetry at hr
  cases hm : s.memory.get? key with
  | none =>
    rw [hm] at h
    rw [show acc = blank from h]
    refine ⟨?_,by simp [blank]⟩
    rintro (hf | hf)
    · cases hf
    · have hpos := hv.retries
      simp only [blank] at hf
      omega
  | some state =>
    rw [hm] at h hr
    have ht : Tracks policy state acc := h
    simp only at hr
    split at hr
    · cases hr
    · rename_i hterm
      split at hr
      · cases hr
      · have hnow : state.nextRetry ≤ now := by simpa using hr
        have hopen : ¬Spent policy acc := fun hsp => hterm (ht.flag.mpr hsp)
        refine ⟨hopen,fun failure hf => ?_⟩
        exact (ht.wait hopen failure hf).trans hnow

theorem follows_open {entry : Option RetryState} {acc : Account} (h : Follows policy entry acc)
    (hopen : ¬Spent policy acc) (now : ℤ) :
    (entry.getD ⟨0,now,"",false,true⟩).count = acc.failures ∧
      (entry.getD ⟨0,now,"",false,true⟩).terminal = false := by
  cases entry with
  | none =>
    rw [show acc = blank from h]
    exact ⟨rfl,rfl⟩
  | some state =>
    refine ⟨h.count,?_⟩
    cases hs : state.terminal with
    | false => exact hs
    | true => exact absurd (h.flag.mp hs) hopen

theorem failedState_tracks {entry : Option RetryState} {acc : Account}
    (h : Follows policy entry acc) (hopen : ¬Spent policy acc) (key error : String)
    (isRetryable : Bool) (now : ℤ) (random : Random) :
    Tracks policy (failedState policy (entry.getD ⟨0,now,"",false,true⟩) error isRetryable now random)
      (book key acc (.failed key now isRetryable)) := by
  obtain ⟨hcount,hterm⟩ := follows_open h hopen now
  have hbound := follows_bound h
  have hless : acc.failures < policy.maxRetries := by
    by_contra hn
    exact hopen (Or.inr (by omega))
  have hfatal : acc.fatal = false := by
    cases hf : acc.fatal with
    | false => rfl
    | true => exact absurd (Or.inl hf) hopen
  generalize entry.getD ⟨0,now,"",false,true⟩ = state at hcount hterm
  cases isRetryable with
  | false =>
    simp only [failedState, book, if_true]
    exact ⟨hcount,hbound,by simp [Spent],fun hn => absurd (Or.inl rfl) hn⟩
  | true =>
    simp only [failedState, book, if_true]
    split
    · rename_i hmax
      refine ⟨by simp [hcount],by simp; omega,?_,?_⟩
      · simp only [true_iff]
        exact Or.inr (by simp; omega)
      · intro hn
        exact absurd (Or.inr (by simp; omega)) hn
    · rename_i hmax
      refine ⟨by simp [hcount],by simp; omega,?_,?_⟩
      · simp only [hterm, Bool.false_eq_true, false_iff]
        rintro (hf | hf)
        · simp [hfatal] at hf
        · simp only at hf
          omega
      · intro _ failure hf
        obtain rfl : now = failure := Option.some.inj hf
        have hge := backoffMs_ge policy (state.count+1) random
        simp only [hcount] at hge ⊢
        omega

@[simp] theorem account_append (key : String) (log : List Note) (note : Note) :
    account key (log++[note]) = book key (account key log) note := by
  simp [account]

structure LogOk (policy : RetryPolicy) (log : List Note) : Prop where
  bounded : ∀ key pre, pre <+: log → (account key pre).failures ≤ policy.maxRetries
  guarded : ∀ key pre time post, log = pre++Note.began key time::post →
    ¬Spent policy (account key pre) ∧ ∀ failure ∈ (account key pre).last,
      failure+leastBackoff policy (account key pre).failures ≤ time

theorem LogOk.append {log : List Note} (h : LogOk policy log) {note : Note}
    (hb : ∀ key, (account key (log++[note])).failures ≤ policy.maxRetries)
    (hg : ∀ key time, note = .began key time → ¬Spent policy (account key log) ∧
      ∀ failure ∈ (account key log).last,
        failure+leastBackoff policy (account key log).failures ≤ time) :
    LogOk policy (log++[note]) := by
  constructor
  · intro key pre hpre
    rcases List.prefix_concat_iff.mp hpre with rfl | hpre
    · exact hb key
    · exact h.bounded key pre hpre
  · intro key pre time post hsplit
    rcases List.eq_nil_or_concat post with rfl | ⟨post',last,rfl⟩
    · obtain ⟨rfl,hnote⟩ := List.append_inj' hsplit rfl
      exact hg key time (List.singleton_inj.mp hnote)
    · have hsplit' : log++[note] = (pre++Note.began key time::post')++[last] := by
        rw [hsplit]
        simp
      exact h.guarded key pre time post' (List.append_inj' hsplit' rfl).1

structure Good (policy : RetryPolicy) (w : Manager × List Note) : Prop where
  log : LogOk policy w.2
  follows : ∀ key, Follows policy (w.1.memory.get? key) (account key w.2)
  stored : ∀ key, w.1.table.get? key = (w.1.memory.get? key).map toRecord

variable {s : Manager} {log : List Note}

theorem Good.write (h : Good policy (s,log)) {s' : Manager} {note : Note}
    (hn : ∀ key time, note ≠ .began key time)
    (hf : ∀ key, Follows policy (s'.memory.get? key) (book key (account key log) note))
    (hs : ∀ key, s'.table.get? key = (s'.memory.get? key).map toRecord) :
    Good policy (s',log++[note]) := by
  constructor
  · apply h.log.append
    · intro key
      rw [account_append]
      exact follows_bound (hf key)
    · intro key time he
      exact absurd he (hn key time)
  · intro key
    rw [account_append]
    exact hf key
  · exact hs

theorem good_clear (h : Good policy (s,log)) (key : String) :
    Good policy (clearState s key,log++[.reset key]) := by
  apply h.write (by simp)
  · intro key'
    simp only [clearState, OrderedMap.get?_delete, book]
    by_cases hk : key' = key
    · simp [hk, Follows]
    · simpa [hk, Ne.symm hk] using h.follows key'
  · intro key'
    simp only [clearState, OrderedMap.get?_delete]
    by_cases hk : key' = key
    · simp [hk]
    · simpa [hk] using h.stored key'

theorem good_clearAll (h : Good policy (s,log)) :
    Good policy (clearAllStates s,log++[.resetAll]) := by
  apply h.write (by simp)
  · intro key
    rfl
  · intro key
    rfl

theorem get?_restart (hs : ∀ key, s.table.get? key = (s.memory.get? key).map toRecord)
    (key : String) : (restart s).memory.get? key = s.memory.get? key := by
  show (OrderedMap.empty.assignAll _).get? key = _
  rw [OrderedMap.get?_assignAll _ _ (s.table.mapValues ofRecord).nodup]
  have hl : (s.table.mapValues ofRecord).entries.lookup key =
      (s.memory.get? key).map (fun state => ofRecord (toRecord state)) := by
    show (s.table.mapValues ofRecord).get? key = _
    rw [OrderedMap.get?_mapValues, hs, Option.map_map]
    rfl
  rw [hl]
  simp only [ofRecord_toRecord]
  cases s.memory.get? key <;> rfl

theorem good_restart (h : Good policy (s,log)) : Good policy (restart s,log) := by
  have hget := get?_restart h.stored
  refine ⟨h.log,fun key => ?_,fun key => ?_⟩
  · rw [hget]
    exact h.follows key
  · rw [hget]
    exact h.stored key

theorem good_began (hv : policy.Valid) (h : Good policy (s,log)) {key : String} {start : ℤ}
    (hr : shouldRetry policy s key start = true) :
    Good policy (s,log++[.began key start]) := by
  refine ⟨h.log.append ?_ ?_,?_,h.stored⟩
  · intro key'
    rw [account_append]
    exact follows_bound (h.follows key')
  · intro key' time he
    obtain ⟨rfl,rfl⟩ := Note.began.inj he
    exact shouldRetry_follows hv (h.follows key) hr
  · intro key'
    rw [account_append]
    exact h.follows key'

theorem good_failed (h : Good policy (s,log)) {key : String}
    (hopen : ¬Spent policy (account key log)) (error : String) (retryable : Option Bool)
    (now : ℤ) (random : Random) :
    Good policy (recordFailure policy s key error retryable now random,
      log++[.failed key now (classify error retryable)]) := by
  apply h.write (by simp)
  · intro key'
    simp only [recordFailure, store, OrderedMap.get?_set]
    by_cases hk : key' = key
    · subst hk
      rw [if_pos rfl]
      exact failedState_tracks (h.follows key') hopen key' error _ now random
    · rw [if_neg hk]
      simpa [book, Ne.symm hk] using h.follows key'
  · intro key'
    simp only [recordFailure, store, OrderedMap.get?_set]
    by_cases hk : key' = key
    · simp [hk]
    · simpa [hk] using h.stored key'

theorem good_nextLogged (hv : policy.Valid) (w : Manager × List Note) (e : Event)
    (h : Good policy w) : Good policy (nextLogged policy w e) := by
  obtain ⟨s,log⟩ := w
  cases e with
  | clear key => exact good_clear h key
  | clearAll => exact good_clearAll h
  | restart =>
    simp only [nextLogged, notes, List.append_nil]
    exact good_restart h
  | attempt key start outcome =>
    simp only [nextLogged, next, notes]
    by_cases hr : shouldRetry policy s key start
    · rw [if_pos hr, if_pos hr]
      have hbegan := good_began hv h hr
      have hsplit : ∀ xs, log++Note.began key start::xs = (log++[.began key start])++xs := by
        simp
      rw [hsplit]
      cases outcome with
      | success => exact good_clear hbegan key
      | interrupted =>
        simp only [ended, List.append_nil]
        exact good_restart hbegan
      | failure error retryable at' random =>
        apply good_failed hbegan
        rw [account_append]
        exact (shouldRetry_follows hv (h.follows key) hr).1
    · rw [if_neg hr, if_neg hr, List.append_nil]
      exact h

theorem good_boot : Good policy (boot,[]) := by
  refine ⟨⟨?_,?_⟩,fun _ => rfl,fun _ => rfl⟩
  · intro key pre hpre
    rw [List.prefix_nil.mp hpre]
    exact Nat.zero_le _
  · intro key pre time post hsplit
    simp at hsplit

end Iotistica.RetryDiscipline
