import Iotistica.PLimit
import Mathlib.Data.List.Count

/-!
# A limiter whose tasks may queue further tasks

Tasks wait in a queue and start in order while slots are free. A task that
starts may push one further task at once and then waits for it. The limiter
keeps its slots busy, and a slot that is held by a waiting task has the task
it waits for in the queue or in another slot, so when all tasks that hold a
slot wait, all slots are taken. It is `pLimit` seen from afar: a push here is
a run of submissions there.
-/

set_option autoImplicit false

namespace Iotistica.SlotLimiter

structure Limiter (T : Type*) where
  active : ℕ
  queue : List T
  slots : List T
  deriving DecidableEq

variable {T : Type*}

def idle : Limiter T := ⟨0,[],[]⟩

/-- Starts the head of the queue if a slot is free. The pushes of started
tasks come back here; each takes a slot, so the free slots are enough fuel. -/
def next (limit : ℕ) (pushes : T → Option T) : ℕ → Limiter T → Limiter T
  | 0, s => s
  | fuel+1, s =>
    match s.queue with
    | [] => s
    | t :: queue =>
      if s.active < limit then
        let s := ⟨s.active+1,queue,s.slots++[t]⟩
        match pushes t with
        | some u => next limit pushes fuel { s with queue := s.queue++[u] }
        | none => s
      else s

def push (limit : ℕ) (pushes : T → Option T) (s : Limiter T) (t : T) : Limiter T :=
  next limit pushes (limit-s.active) { s with queue := s.queue++[t] }

def release [DecidableEq T] (limit : ℕ) (pushes : T → Option T) (s : Limiter T) (t : T) :
    Limiter T :=
  next limit pushes (limit-(s.active-1)) { s with active := s.active-1, slots := s.slots.erase t }

structure Busy (limit : ℕ) (s : Limiter T) : Prop where
  active_eq : s.active = s.slots.length
  active_le : s.active ≤ limit
  working : s.queue = [] ∨ s.active = limit

structure Ready (limit : ℕ) (s : Limiter T) : Prop where
  active_eq : s.active = s.slots.length
  active_le : s.active ≤ limit
  short : s.queue.length ≤ 1 ∨ limit ≤ s.active+1

theorem busy_next {limit : ℕ} (pushes : T → Option T) (fuel : ℕ) (s : Limiter T)
    (h : Ready limit s) (hf : fuel = limit-s.active) : Busy limit (next limit pushes fuel s) := by
  induction fuel generalizing s with
  | zero =>
    have hle := h.active_le
    exact ⟨h.active_eq,hle,Or.inr (show s.active = limit by omega)⟩
  | succ fuel ih =>
    have hactive := h.active_eq
    have hshort := h.short
    unfold next
    split
    · rename_i hq
      exact ⟨h.active_eq,h.active_le,Or.inl hq⟩
    · rename_i t queue hq
      rw [hq, List.length_cons] at hshort
      have hlt : s.active < limit := by omega
      rw [if_pos hlt]
      simp only
      split
      · apply ih
        · refine ⟨by simp [hactive],hlt,?_⟩
          simp only [List.length_append, List.length_cons, List.length_nil]
          omega
        · simp only
          omega
      · refine ⟨by simp [hactive],hlt,?_⟩
        rcases hshort with hs | hs
        · exact Or.inl (List.length_eq_zero_iff.mp (show queue.length = 0 by omega))
        · exact Or.inr (show s.active+1 = limit by omega)

theorem Busy.push {limit : ℕ} {s : Limiter T} (h : Busy limit s) (pushes : T → Option T) (t : T) :
    Busy limit (push limit pushes s t) := by
  unfold SlotLimiter.push
  refine busy_next pushes _ _ ?_ rfl
  refine ⟨h.active_eq,h.active_le,?_⟩
  rcases h.working with hq | hfull
  · exact Or.inl (by simp [hq])
  · exact Or.inr (by simp only; omega)

theorem Busy.release [DecidableEq T] {limit : ℕ} {s : Limiter T} (h : Busy limit s)
    (pushes : T → Option T) {t : T} (ht : t ∈ s.slots) :
    Busy limit (release limit pushes s t) := by
  have hactive := h.active_eq
  have hle := h.active_le
  unfold SlotLimiter.release
  refine busy_next pushes _ _ ?_ rfl
  refine ⟨?_,?_,?_⟩
  · simp only [List.length_erase_of_mem ht, hactive]
  · simp only
    omega
  · rcases h.working with hq | hfull
    · exact Or.inl (by simp [hq])
    · exact Or.inr (by simp only; omega)

def tasks (s : Limiter T) : List T := s.queue++s.slots

theorem count_next {limit : ℕ} {pushes : T → Option T} (p : T → Bool)
    (hp : ∀ t u, pushes t = some u → p u = false) (fuel : ℕ) (s : Limiter T) :
    (tasks (next limit pushes fuel s)).countP p = (tasks s).countP p := by
  induction fuel generalizing s with
  | zero => rfl
  | succ fuel ih =>
    unfold next
    split
    · rfl
    · rename_i t queue hq
      split
      · simp only
        split
        · rename_i u hu
          rw [ih]
          simp [tasks, hq, List.countP_append, List.countP_cons, hp t u hu]
          omega
        · simp [tasks, hq, List.countP_append, List.countP_cons]
          omega
      · rfl

theorem count_push {limit : ℕ} {pushes : T → Option T} (p : T → Bool)
    (hp : ∀ t u, pushes t = some u → p u = false) (s : Limiter T) (t : T) :
    (tasks (push limit pushes s t)).countP p = (tasks s).countP p+(if p t then 1 else 0) := by
  rw [push, count_next p hp]
  simp [tasks, List.countP_append, List.countP_cons]
  omega

theorem count_release [DecidableEq T] {limit : ℕ} {pushes : T → Option T} (p : T → Bool)
    (hp : ∀ t u, pushes t = some u → p u = false) (s : Limiter T) (t : T) :
    (tasks (release limit pushes s t)).countP p ≤ (tasks s).countP p := by
  rw [release, count_next p hp]
  simp only [tasks, List.countP_append]
  have herase := (List.erase_sublist (a := t) (l := s.slots)).countP_le (p := p)
  omega

def Covered (pushes : T → Option T) (settled : T → Prop) (s : Limiter T) : Prop :=
  ∀ t ∈ s.slots, ∀ u, pushes t = some u → settled u ∨ u ∈ tasks s

theorem covered_next {limit : ℕ} {pushes : T → Option T} {settled : T → Prop} (fuel : ℕ)
    (s : Limiter T) (h : Covered pushes settled s) :
    Covered pushes settled (next limit pushes fuel s) := by
  induction fuel generalizing s with
  | zero => exact h
  | succ fuel ih =>
    unfold next
    split
    · exact h
    · rename_i t queue hq
      have hkeep : ∀ x ∈ tasks s, x ∈ queue++(s.slots++[t]) := by
        intro x hx
        simp only [tasks, hq, List.mem_append, List.mem_cons, List.not_mem_nil, or_false] at hx ⊢
        tauto
      split
      · simp only
        split
        · rename_i u hu
          apply ih
          intro x hx v hv
          rcases List.mem_append.mp hx with hx | hx
          · rcases h x hx v hv with hs | hs
            · exact Or.inl hs
            · have hin := hkeep v hs
              simp only [tasks, List.mem_append] at hin ⊢
              tauto
          · obtain rfl := List.mem_singleton.mp hx
            rw [hu] at hv
            obtain rfl := Option.some.inj hv
            exact Or.inr (by simp [tasks])
        · rename_i hnone
          intro x hx v hv
          rcases List.mem_append.mp hx with hx | hx
          · exact (h x hx v hv).imp_right (hkeep v)
          · obtain rfl := List.mem_singleton.mp hx
            rw [hnone] at hv
            cases hv
      · exact h

theorem Covered.push {limit : ℕ} {pushes : T → Option T} {settled : T → Prop} {s : Limiter T}
    (h : Covered pushes settled s) (t : T) : Covered pushes settled (push limit pushes s t) := by
  apply covered_next
  intro x hx v hv
  have hin := h x hx v hv
  simp only [tasks, List.mem_append] at hin ⊢
  tauto

theorem Covered.release [DecidableEq T] {limit : ℕ} {pushes : T → Option T} {settled : T → Prop}
    {s : Limiter T} (h : Covered pushes settled s) {t : T}
    (ht : settled t ∨ ∀ x, pushes x ≠ some t) :
    Covered pushes settled (release limit pushes s t) := by
  apply covered_next
  intro x hx v hv
  rcases h x (List.mem_of_mem_erase hx) v hv with hs | hs
  · exact Or.inl hs
  · by_cases heq : v = t
    · subst heq
      exact ht.imp_right (fun hn => absurd hv (hn x))
    · refine Or.inr ?_
      simp only [tasks, List.mem_append] at hs ⊢
      exact hs.imp_right (fun hm => (List.mem_erase_of_ne heq).mpr hm)

def Waits (pushes : T → Option T) (settled : T → Prop) (t : T) : Prop :=
  ∃ u, pushes t = some u ∧ ¬settled u

/-- If every task in a slot waits, and pushed tasks never do, the slots are
all taken and the tasks waited for are queued. -/
theorem full_of_waits {limit : ℕ} {pushes : T → Option T} {settled : T → Prop} {s : Limiter T}
    (hb : Busy limit s) (hc : Covered pushes settled s)
    (hleaf : ∀ t u, pushes t = some u → pushes u = none) (hne : s.slots ≠ [])
    (hw : ∀ t ∈ s.slots, Waits pushes settled t) : s.active = limit ∧ s.queue ≠ [] := by
  obtain ⟨t,ht⟩ := List.exists_mem_of_ne_nil _ hne
  obtain ⟨u,hu,hopen⟩ := hw t ht
  have hqueue : u ∈ s.queue := by
    rcases hc t ht u hu with hs | hs
    · exact absurd hs hopen
    · rcases List.mem_append.mp hs with hq | hslot
      · exact hq
      · obtain ⟨v,hv,_⟩ := hw u hslot
        rw [hleaf t u hu] at hv
        cases hv
  have hq : s.queue ≠ [] := List.ne_nil_of_mem hqueue
  exact ⟨hb.working.resolve_left hq,hq⟩

variable {O : Type*}

/-- The limiter is that of `pLimit`, but for what became of the calls. -/
structure Shows (l : Limiter T) (s : PLimit.Limiter T O) : Prop where
  active : l.active = s.active
  queue : l.queue = s.queue.map Prod.fst
  slots : l.slots.Perm ((s.started.filter
    (fun j => j.phase.isRunning || j.phase.isClosing)).map PLimit.Job.fn)

theorem next_full {limit : ℕ} {s : PLimit.Limiter T O} (h : limit ≤ s.active) :
    PLimit.next limit s = s := by
  unfold PLimit.next
  split
  · rfl
  · exact if_neg (Nat.not_lt.mpr h)

theorem shows_next {limit : ℕ} (pushes : T → Option T) (fuel : ℕ) {l : Limiter T}
    {s : PLimit.Limiter T O} (h : Shows l s) (hf : limit ≤ s.active+fuel) :
    ∃ fns : List T, Shows (next limit pushes fuel l)
      (fns.foldl (PLimit.submit limit) (PLimit.next limit s)) := by
  induction fuel generalizing l s with
  | zero => exact ⟨[],by rw [next_full hf]; exact h⟩
  | succ fuel ih =>
    have hqueue := h.queue
    unfold next
    cases hs : s.queue with
    | nil =>
      rw [hs, List.map_nil] at hqueue
      have hidle : PLimit.next limit s = s := by
        unfold PLimit.next
        rw [hs]
      rw [hqueue]
      exact ⟨[],by rw [hidle]; exact h⟩
    | cons thunk rest =>
      rw [hs, List.map_cons] at hqueue
      rw [hqueue, h.active]
      dsimp only
      by_cases hfree : s.active < limit
      · have hstarted : PLimit.next limit s = { s with
            active := s.active+1
            queue := rest
            started := s.started++[⟨thunk.1,thunk.2,.running⟩] } := by
          unfold PLimit.next
          rw [hs]
          exact if_pos hfree
        have hshows : Shows ⟨s.active+1,rest.map Prod.fst,l.slots++[thunk.1]⟩
            (PLimit.next limit s) := by
          rw [hstarted]
          refine ⟨rfl,rfl,?_⟩
          rw [List.filter_append, List.map_append]
          exact h.slots.append_right [thunk.1]
        rw [if_pos hfree]
        cases pushes thunk.1 with
        | none => exact ⟨[],hshows⟩
        | some u =>
          have hroom : limit ≤ (PLimit.next limit s).active+fuel := by
            rw [hstarted]
            dsimp only
            omega
          -- what the task pushes is the next submission
          obtain ⟨fns,hfns⟩ := ih (l := ⟨s.active+1,rest.map Prod.fst++[u],l.slots++[thunk.1]⟩)
            (s := { PLimit.next limit s with
              queue := (PLimit.next limit s).queue++[(u,(PLimit.next limit s).submitted.length)]
              submitted := (PLimit.next limit s).submitted++[u] })
            ⟨hshows.active,by simp [← hshows.queue],hshows.slots⟩ hroom
          exact ⟨u::fns,hfns⟩
      · rw [if_neg hfree]
        exact ⟨[],by rw [next_full (Nat.not_lt.mp hfree)]; exact h⟩

theorem shows_push {limit : ℕ} (pushes : T → Option T) {l : Limiter T} {s : PLimit.Limiter T O}
    (h : Shows l s) (t : T) : ∃ fns : List T,
      Shows (push limit pushes l t) ((t::fns).foldl (PLimit.submit limit) s) := by
  apply shows_next
  · exact ⟨h.active,by simp [h.queue],h.slots⟩
  · rw [h.active]
    dsimp only
    omega

theorem shows_release [DecidableEq T] {limit : ℕ} (pushes : T → Option T) {l : Limiter T}
    {s : PLimit.Limiter T O} (h : Shows l s) {k caller : ℕ} {t : T} {o : O}
    (hk : s.started[k]? = some ⟨t,caller,.answered o⟩) : ∃ fns : List T,
      Shows (release limit pushes l t)
        (fns.foldl (PLimit.submit limit) (PLimit.step limit s (.finalize k))) := by
  simp only [PLimit.step, hk]
  apply shows_next
  · refine ⟨by rw [h.active],h.queue,?_⟩
    obtain ⟨hlt,hget⟩ := List.getElem?_eq_some_iff.mp hk
    have hsplit : s.started = s.started.take k++⟨t,caller,.answered o⟩::s.started.drop (k+1) := by
      rw [← hget, List.getElem_cons_drop, List.take_append_drop]
    have hheld := h.slots
    rw [hsplit] at hheld
    rw [List.set_eq_take_append_cons_drop, if_pos hlt]
    simp only [List.filter_append, List.filter_cons, PLimit.Phase.isRunning,
      PLimit.Phase.isClosing, Bool.or_true, if_true, Bool.or_false, Bool.false_eq_true, if_false,
      List.map_append, List.map_cons] at hheld ⊢
    have herase := (hheld.trans List.perm_middle).erase t
    rwa [List.erase_cons_head] at herase
  · rw [h.active]
    dsimp only
    omega

end Iotistica.SlotLimiter
