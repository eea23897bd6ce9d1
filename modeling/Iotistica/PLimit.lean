import Iotistica.GuardedRun
import Mathlib.Data.List.Basic
import Mathlib.Data.List.Enum

/-!
# The concurrency limiter

`pLimit` keeps a counter and a queue of thunks. A submission pushes a thunk
and calls `next`; a thunk starts its function and hangs two callbacks on the
promise it returns: `then(res, rej)`, and after that `finally`, which counts
down and calls `next`. Each callback is an event of its own, since other
code may run between the end of a function and its callbacks.
-/

set_option autoImplicit false

namespace Iotistica.PLimit
open GuardedRun

/-- What became of a started function: still running, its promise settled,
`res` or `rej` called with that outcome, the `finally` callback done. -/
inductive Phase (O : Type*) where
  | running
  | finished (o : O)
  | answered (o : O)
  | released (o : O)
deriving DecidableEq

/-- A started thunk: its function, and the promise whose `res` and `rej` it
holds. Promises are numbered in the order of the submissions. -/
structure Job (F O : Type*) where
  fn : F
  caller : Nat
  phase : Phase O
deriving DecidableEq

/-- `submitted`, `started` and `settled` are logs: the functions handed over,
the thunks that left the queue and the calls of `res` and `rej`. -/
structure Limiter (F O : Type*) where
  active : Nat
  queue : List (F × Nat)
  submitted : List F
  started : List (Job F O)
  settled : List (Nat × O)

/-- The place of an event is that of the thunk among the started ones. -/
inductive Event (F O : Type*) where
  | submit (fn : F)
  | settle (place : Nat) (o : O)
  | react (place : Nat)
  | finalize (place : Nat)
deriving DecidableEq

variable {F O : Type*}

def init : Limiter F O := ⟨0,[],[],[],[]⟩

/-- Starts one waiting thunk at most. What the function submits before it
returns its promise comes as the events right after its start. -/
def next (limit : Nat) (s : Limiter F O) : Limiter F O :=
  match s.queue with
  | [] => s
  | thunk::rest =>
    if s.active < limit then
      { s with
        active := s.active+1
        queue := rest
        started := s.started++[⟨thunk.1,thunk.2,.running⟩] }
    else s

/-- The function that `pLimit` returns. -/
def submit (limit : Nat) (s : Limiter F O) (fn : F) : Limiter F O :=
  next limit { s with
    queue := s.queue++[(fn,s.submitted.length)]
    submitted := s.submitted++[fn] }

def step (limit : Nat) (s : Limiter F O) : Event F O → Limiter F O
  | .submit fn => submit limit s fn
  | .settle k o =>
    match s.started[k]? with
    | some ⟨fn,caller,.running⟩ => { s with started := s.started.set k ⟨fn,caller,.finished o⟩ }
    | _ => s
  | .react k =>
    match s.started[k]? with
    | some ⟨fn,caller,.finished o⟩ =>
      { s with
        started := s.started.set k ⟨fn,caller,.answered o⟩
        settled := s.settled++[(caller,o)] }
    | _ => s
  | .finalize k =>
    match s.started[k]? with
    | some ⟨fn,caller,.answered o⟩ =>
      next limit { s with
        active := s.active-1
        started := s.started.set k ⟨fn,caller,.released o⟩ }
    | _ => s

def Phase.isRunning : Phase O → Bool
  | .running => true
  | _ => false

/-- Finished, with the `finally` callback still to run. -/
def Phase.isClosing : Phase O → Bool
  | .finished _ | .answered _ => true
  | _ => false

def Phase.result : Phase O → Option O
  | .running => none
  | .finished o | .answered o | .released o => some o

/-- The outcome that `res` or `rej` was called with. -/
def Phase.answer : Phase O → Option O
  | .answered o | .released o => some o
  | _ => none

def unfinished (s : Limiter F O) : Nat := s.started.countP (·.phase.isRunning)

def closing (s : Limiter F O) : Nat := s.started.countP (·.phase.isClosing)

def Job.thunk (j : Job F O) : F × Nat := (j.fn,j.caller)

structure Sound (limit : Nat) (s : Limiter F O) : Prop where
  active : s.active=unfinished s+closing s
  bound : s.active ≤ limit
  order : s.started.map Job.thunk++s.queue=s.submitted.zipIdx
  keys : (s.settled.map Prod.fst).Nodup
  answers : ∀ k o, (k,o) ∈ s.settled ↔ (s.started[k]?).bind (·.phase.answer)=some o

structure Fair (limit : Nat) (s : Limiter F O) : Prop extends Sound limit s where
  full : s.queue ≠ [] → s.active=limit

theorem init_fair (limit : Nat) : Fair limit (init : Limiter F O) := by
  refine ⟨⟨?_,?_,?_,?_,?_⟩,?_⟩ <;> simp [init, unfinished, closing]

theorem caller_eq {limit : Nat} {s : Limiter F O} (h : Sound limit s) {k : Nat} {j : Job F O}
    (hj : s.started[k]?=some j) : j.caller=k ∧ s.submitted[k]?=some j.fn := by
  have hmap : (s.started.map Job.thunk++s.queue)[k]?=some j.thunk := by
    have hk : k < (s.started.map Job.thunk).length := by
      simpa using (List.getElem?_eq_some_iff.mp hj).1
    rw [List.getElem?_append_left hk, List.getElem?_map, hj]
    rfl
  rw [h.order, List.getElem?_zipIdx] at hmap
  obtain ⟨f,hf,he⟩ := Option.map_eq_some_iff.mp hmap
  have hfn : f=j.fn := congrArg Prod.fst he
  have hcaller : 0+k=j.caller := congrArg Prod.snd he
  exact ⟨by omega,by rw [hf, hfn]⟩

theorem countP_move {p : Job F O → Bool} {l : List (Job F O)} {k : Nat} {j : Job F O}
    (hj : l[k]?=some j) (j' : Job F O) :
    (l.set k j').countP p+(if p j then 1 else 0)=l.countP p+(if p j' then 1 else 0) := by
  obtain ⟨hk,rfl⟩ := List.getElem?_eq_some_iff.mp hj
  have hpos : (if p l[k] then 1 else 0) ≤ l.countP p := by
    split
    · next hp => exact List.countP_pos_iff.mpr ⟨l[k],List.getElem_mem hk,hp⟩
    · exact Nat.zero_le _
  rw [List.countP_set hk]
  omega

theorem thunks_set {l : List (Job F O)} {k : Nat} {j : Job F O} (hj : l[k]?=some j)
    (ph : Phase O) : (l.set k { j with phase := ph }).map Job.thunk=l.map Job.thunk := by
  have hk : (l.map Job.thunk)[k]?=some j.thunk := by rw [List.getElem?_map, hj]; rfl
  obtain ⟨hlt,he⟩ := List.getElem?_eq_some_iff.mp hk
  have hset := List.set_getElem_self hlt
  rw [List.map_set]
  rw [he] at hset
  exact hset

theorem answer_set {l : List (Job F O)} {k : Nat} {j : Job F O} (hj : l[k]?=some j)
    (j' : Job F O) (i : Nat) :
    ((l.set k j')[i]?).bind (·.phase.answer)=
      if i=k then j'.phase.answer else (l[i]?).bind (·.phase.answer) := by
  have hk := (List.getElem?_eq_some_iff.mp hj).1
  by_cases hi : i=k
  · subst hi
    simp [hk]
  · rw [List.getElem?_set_ne (Ne.symm hi), if_neg hi]

theorem move_active {s : Limiter F O} (h : s.active=unfinished s+closing s) {k : Nat} {j : Job F O}
    (hj : s.started[k]?=some j) (ph : Phase O) (active : Nat)
    (hactive : active+(if j.phase.isRunning then 1 else 0)+(if j.phase.isClosing then 1 else 0)=
      s.active+(if ph.isRunning then 1 else 0)+(if ph.isClosing then 1 else 0)) :
    active=(s.started.set k { j with phase := ph }).countP (·.phase.isRunning)+
      (s.started.set k { j with phase := ph }).countP (·.phase.isClosing) := by
  have hrun := countP_move (p := (·.phase.isRunning)) hj { j with phase := ph }
  have hclose := countP_move (p := (·.phase.isClosing)) hj { j with phase := ph }
  unfold unfinished closing at h
  simp only at hrun hclose
  omega

theorem move_sound {limit : Nat} {s : Limiter F O} (h : Sound limit s) {k : Nat} {j : Job F O}
    (hj : s.started[k]?=some j) (ph : Phase O) (hans : ph.answer=j.phase.answer)
    (active : Nat)
    (hactive : active+(if j.phase.isRunning then 1 else 0)+(if j.phase.isClosing then 1 else 0)=
      s.active+(if ph.isRunning then 1 else 0)+(if ph.isClosing then 1 else 0))
    (hbound : active ≤ limit) :
    Sound limit { s with
      active := active, started := s.started.set k { j with phase := ph } } := by
  refine ⟨move_active h.active hj ph active hactive,hbound,?_,h.keys,?_⟩
  · rw [thunks_set hj]
    exact h.order
  · intro i o
    rw [h.answers i o, answer_set hj]
    by_cases hi : i=k
    · rw [if_pos hi, hi, hj, Option.bind_some, hans]
    · rw [if_neg hi]

theorem next_sound {limit : Nat} {s : Limiter F O} (h : Sound limit s) :
    Sound limit (next limit s) := by
  unfold next
  split
  · exact h
  · next thunk rest hq =>
    split
    · next hlt =>
      refine ⟨?_,hlt,?_,h.keys,?_⟩
      · have hrun : ([⟨thunk.1,thunk.2,.running⟩] : List (Job F O)).countP
            (·.phase.isRunning)=1 := rfl
        have hclose : ([⟨thunk.1,thunk.2,.running⟩] : List (Job F O)).countP
            (·.phase.isClosing)=0 := rfl
        have hold := h.active
        unfold unfinished closing at hold ⊢
        simp only [List.countP_append, hrun, hclose]
        omega
      · have hold := h.order
        rw [hq] at hold
        simpa [Job.thunk] using hold
      · intro k o
        rw [h.answers k o]
        by_cases hk : k < s.started.length
        · rw [List.getElem?_append_left hk]
        · rw [List.getElem?_append_right (by omega), List.getElem?_eq_none (by omega)]
          cases hd : k-s.started.length <;> simp [Phase.answer]
    · exact h

theorem next_fair {limit : Nat} {s : Limiter F O} (h : Sound limit s)
    (hroom : s.queue.tail ≠ [] → limit ≤ s.active+1) : Fair limit (next limit s) := by
  refine ⟨next_sound h,?_⟩
  unfold next
  split
  · next hq => exact fun hne => absurd hq hne
  · next thunk rest hq =>
    rw [hq] at hroom
    split
    · next hlt =>
      intro hne
      have := hroom hne
      simp only
      omega
    · have := h.bound
      intro _
      omega

theorem submit_fair {limit : Nat} {s : Limiter F O} (h : Fair limit s) (fn : F) :
    Fair limit (submit limit s fn) := by
  apply next_fair
  · refine ⟨h.active,h.bound,?_,h.keys,h.answers⟩
    rw [← List.append_assoc, h.order, List.zipIdx_append]
    simp
  · cases hq : s.queue with
    | nil => simp
    | cons thunk rest =>
      have := h.full (by simp [hq])
      simp only
      omega

theorem settle_fair {limit : Nat} {s : Limiter F O} (h : Fair limit s) {k : Nat} {j : Job F O}
    (hj : s.started[k]?=some j) (hrun : j.phase=.running) (o : O) :
    Fair limit { s with started := s.started.set k { j with phase := .finished o } } := by
  have hs := move_sound h.toSound hj (.finished o) (by rw [hrun]; rfl) s.active
    (by rw [hrun]; rfl) h.bound
  exact ⟨hs,h.full⟩

theorem react_fair {limit : Nat} {s : Limiter F O} (h : Fair limit s) {k : Nat} {j : Job F O}
    {o : O} (hj : s.started[k]?=some j) (hfin : j.phase=.finished o) :
    Fair limit { s with
      started := s.started.set k { j with phase := .answered o }
      settled := s.settled++[(j.caller,o)] } := by
  have hcaller : j.caller=k := (caller_eq h.toSound hj).1
  have hnone : (s.started[k]?).bind (·.phase.answer)=none := by rw [hj, Option.bind_some, hfin]; rfl
  refine ⟨⟨?_,h.bound,?_,?_,?_⟩,h.full⟩
  · exact move_active h.active hj (.answered o) s.active (by rw [hfin]; rfl)
  · rw [thunks_set hj]
    exact h.order
  · -- the promise was not settled before: its thunk had not answered
    rw [List.map_append, List.nodup_append]
    refine ⟨h.keys,by simp,?_⟩
    intro a ha b hb hab
    obtain ⟨p,hp,rfl⟩ := List.mem_map.mp ha
    have hb' : b=j.caller := by simpa using hb
    have hkey : p.1=k := by rw [hab, hb', hcaller]
    have := (h.answers p.1 p.2).mp hp
    rw [hkey, hnone] at this
    exact absurd this (by simp)
  · intro i o'
    rw [List.mem_append, h.answers i o', answer_set hj, List.mem_singleton, Prod.mk.injEq, hcaller]
    by_cases hi : i=k
    · subst hi
      rw [hnone]
      simp [Phase.answer, eq_comm]
    · simp [hi]

theorem finalize_fair {limit : Nat} {s : Limiter F O} (h : Fair limit s) {k : Nat} {j : Job F O}
    {o : O} (hj : s.started[k]?=some j) (hans : j.phase=.answered o) :
    Fair limit (next limit { s with
      active := s.active-1
      started := s.started.set k { j with phase := .released o } }) := by
  -- the counter is positive: this thunk is one of those it counts
  have hpos : 0 < closing s :=
    List.countP_pos_iff.mpr ⟨j,List.mem_of_getElem? hj,by simp [hans, Phase.isClosing]⟩
  have hold := h.active
  have hb := h.bound
  apply next_fair
  · apply move_sound h.toSound hj (.released o) (by rw [hans]; rfl) (s.active-1)
    · simp only [hans, Phase.isRunning, Phase.isClosing]
      simp only [if_true, Bool.false_eq_true, if_false]
      omega
    · omega
  · intro htail
    have hq : s.queue ≠ [] := by
      rintro hq
      simp [hq] at htail
    have := h.full hq
    simp only
    omega

theorem step_fair {limit : Nat} {s : Limiter F O} (h : Fair limit s) (e : Event F O) :
    Fair limit (step limit s e) := by
  cases e with
  | submit fn => exact submit_fair h fn
  | settle k o =>
    simp only [step]
    split
    · next hj => exact settle_fair h hj rfl o
    · exact h
  | react k =>
    simp only [step]
    split
    · next hj => exact react_fair h hj rfl
    · exact h
  | finalize k =>
    simp only [step]
    split
    · next hj => exact finalize_fair h hj rfl
    · exact h

theorem run_fair (limit : Nat) (es : List (Event F O)) : Fair limit (run (step limit) es init) :=
  run_invariant (I := Fair limit) (fun _ e _ h => step_fair h e) es init (meets_any _ _ _)
    (init_fair limit)

theorem answer_result {ph : Phase O} {o : O} (h : ph.answer=some o) : ph.result=some o := by
  cases ph with
  | running => exact h
  | finished o' => exact absurd h (by simp [Phase.answer])
  | answered o' => exact h
  | released o' => exact h

theorem released_of_idle {s : Limiter F O} (hrun : unfinished s=0) (hclose : closing s=0) :
    ∀ j ∈ s.started, ∃ o, j.phase=.released o := by
  intro j hj
  have h1 : j.phase.isRunning=false := by
    simpa using List.countP_eq_zero.mp hrun j hj
  have h2 : j.phase.isClosing=false := by
    simpa using List.countP_eq_zero.mp hclose j hj
  cases hp : j.phase with
  | running => simp [hp, Phase.isRunning] at h1
  | finished o => simp [hp, Phase.isClosing] at h2
  | answered o => simp [hp, Phase.isClosing] at h2
  | released o => exact ⟨o,rfl⟩

/-- In every state: the bound, the order of the starts, one answer for each
promise, and no thunk waiting while a slot is free. A slot is free again
only after the `finally` callback. Once nothing runs and no callback is
left, every submitted function has been started and every promise settled. -/
theorem limiter_run (limit : Nat) (hlimit : 1 ≤ limit) (es : List (Event F O)) :
    let s := run (step limit) es init
    unfinished s ≤ limit ∧
      s.started.map Job.thunk++s.queue=s.submitted.zipIdx ∧
      (s.settled.map Prod.fst).Nodup ∧
      (∀ k o, (k,o) ∈ s.settled ↔ (s.started[k]?).bind (·.phase.answer)=some o) ∧
      (∀ k o, (k,o) ∈ s.settled → (s.started[k]?).bind (·.phase.result)=some o) ∧
      (s.queue ≠ [] → unfinished s+closing s=limit) ∧
      (unfinished s=0 → closing s=0 → s.started.map Job.fn=s.submitted ∧
        ∀ k, k < s.submitted.length → ∃ o, (k,o) ∈ s.settled) := by
  intro s
  have h : Fair limit s := run_fair limit es
  refine ⟨?_,h.order,h.keys,h.answers,?_,?_,?_⟩
  · have h1 := h.active
    have h2 := h.bound
    omega
  · intro k o hk
    obtain ⟨j,hj,hans⟩ := Option.bind_eq_some_iff.mp ((h.answers k o).mp hk)
    rw [hj, Option.bind_some]
    exact answer_result hans
  · intro hq
    rw [← h.active, h.full hq]
  · intro hrun hclose
    have hactive := h.active
    have hqueue : s.queue=[] := by
      by_contra hq
      have := h.full hq
      omega
    have horder := h.order
    rw [hqueue, List.append_nil] at horder
    have hfns : s.started.map Job.fn=s.submitted := by
      have hfst := congrArg (List.map Prod.fst) horder
      rwa [List.map_map, List.zipIdx_map_fst] at hfst
    refine ⟨hfns,fun k hk => ?_⟩
    have hk' : k < s.started.length := by rwa [← List.length_map (f := Job.fn), hfns]
    obtain ⟨o,ho⟩ := released_of_idle hrun hclose s.started[k] (List.getElem_mem hk')
    refine ⟨o,(h.answers k o).mpr ?_⟩
    rw [List.getElem?_eq_getElem hk', Option.bind_some, ho]
    rfl

/-- A run of three functions with two slots. -/
theorem limiter_run_two :
    let s := run (step 2) [.submit 'a',.submit 'b',.submit 'c',.settle 1 true,.react 1,.finalize 1]
      (init : Limiter Char Bool)
    unfinished s ≤ 2 ∧ s.started.map Job.thunk=[( 'a',0),( 'b',1),( 'c',2)] := by
  refine ⟨(limiter_run 2 (by decide) _).1,by decide⟩

/-- After the end of a function its slot stays taken until the callback of
its promise has run, and meanwhile a thunk waits with nothing running. -/
theorem finished_before_next :
    ¬ ∀ (limit : Nat) (es : List (Event Char Bool)), 1 ≤ limit →
      (run (step limit) es init).queue ≠ [] → unfinished (run (step limit) es init)=limit := by
  intro h
  have := h 1 [.submit 'a',.submit 'b',.settle 0 true] (by decide) (by decide)
  exact absurd this (by decide)

end Iotistica.PLimit
