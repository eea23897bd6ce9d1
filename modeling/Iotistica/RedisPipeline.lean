import Iotistica.GuardedRun
import Mathlib.Data.List.Basic
import Mathlib.Data.List.Induction
import Mathlib.Data.List.Nodup
import Mathlib.Algebra.BigOperators.Group.List.Basic
import Mathlib.Algebra.GroupWithZero.Nat

/-!
# Pipelined writes

`RedisPipeline` gathers commands on a handle and the promises of their
callers beside it. A flush takes both away before it waits for `exec`, so
new commands gather on a new handle meanwhile. The answers of `exec` come
in any order of the handles, and each settles the promises of its own.
-/

set_option autoImplicit false

namespace Iotistica.RedisPipeline
open GuardedRun

variable {C E : Type*}

/-- How `exec` ends: an error or none for each command of the handle, in
their order, or null, or a failure of the connection. -/
inductive Reply (E : Type*) where
  | results (err : ℕ → Option E)
  | null
  | failed (error : E)

/-- A handle whose `exec` has been called, with the promises of its entries. -/
structure Flight (C E : Type*) where
  commands : List C
  entries : List ℕ
  reply : Option (Reply E)

structure Options where
  batchSize : ℕ
  flushIntervalMs : ℕ

/-- Promises are numbered in the order of the calls of `add`. The flights,
the commands added and the promises settled are logs. -/
structure Pipeline (C E : Type*) where
  pending : Option (List C)
  pendingEntries : List ℕ
  count : ℕ
  flushTimer : Bool
  flights : List (Flight C E)
  added : List C
  settled : List (ℕ × Bool)

def init : Pipeline C E := ⟨none,[],0,false,[],[],[]⟩

/-- The fields are reset before `exec` is called. -/
def launch (s : Pipeline C E) (commands : List C) : Pipeline C E :=
  { s with
    pending := none
    pendingEntries := []
    count := 0
    flushTimer := false
    flights := s.flights++[⟨commands,s.pendingEntries,none⟩] }

/-- The part of `flush` up to the `await`. -/
def flush (s : Pipeline C E) : Pipeline C E :=
  match s.pending with
  | none => s
  | some commands => if s.count = 0 then s else launch s commands

def add (o : Options) (s : Pipeline C E) (command : C) : Pipeline C E :=
  let gathered := { s with
    pending := some (s.pending.getD []++[command])
    pendingEntries := s.pendingEntries++[s.added.length]
    count := s.count+1
    flushTimer := false
    added := s.added++[command] }
  if o.batchSize ≤ gathered.count then flush gathered
  else if o.flushIntervalMs = 0 then flush gathered
  else { gathered with flushTimer := true }

/-- The promises that are settled after the `await`, and whether they are
resolved. -/
def settlements (f : Flight C E) : Reply E → List (ℕ × Bool)
  | .results err => (List.range f.commands.length).filterMap
      (fun idx => (f.entries[idx]?).map (fun entry => (entry,(err idx).isNone)))
  | .null => f.entries.map (fun entry => (entry,false))
  | .failed _ => f.entries.map (fun entry => (entry,false))

/-- The part of `flush` after the `await`, for the handle at a place. -/
def land (s : Pipeline C E) (k : ℕ) (f : Flight C E) (reply : Reply E) : Pipeline C E :=
  { s with
    flights := s.flights.set k { f with reply := some reply }
    settled := s.settled++settlements f reply }

/-- A call of `add`, the idle timer, an explicit `flush`, and the end of
the `exec` of the handle at a place. -/
inductive Event (C E : Type*) where
  | add (command : C)
  | timer
  | flush
  | exec (place : ℕ) (reply : Reply E)

def step (o : Options) (s : Pipeline C E) : Event C E → Pipeline C E
  | .add command => add o s command
  | .timer => if s.flushTimer then flush s else s
  | .flush => flush s
  | .exec k reply =>
    match s.flights[k]? with
    | some ⟨commands,entries,none⟩ => land s k ⟨commands,entries,none⟩ reply
    | _ => s

def Reply.succeeded : Reply E → ℕ → Bool
  | .results err, idx => (err idx).isNone
  | .null, _ => false
  | .failed _, _ => false

def handles (s : Pipeline C E) : List (List C) := s.flights.map Flight.commands

def waiting (s : Pipeline C E) : List C := s.pending.getD []

def offset (hs : List (List C)) (k : ℕ) : ℕ := ((hs.take k).map List.length).sum

/-- Command `n` is the one at place `idx` of handle `k`. -/
def At (s : Pipeline C E) (n k idx : ℕ) : Prop :=
  ∃ commands, (handles s)[k]? = some commands ∧ idx < commands.length ∧
    n = offset (handles s) k+idx

theorem offset_step {hs : List (List C)} {k : ℕ} {h : List C} (hk : hs[k]? = some h) :
    offset hs (k+1)=offset hs k+h.length := by
  have htake : hs.take (k+1)=hs.take k++[h] := by
    rw [List.take_add_one, hk]
    rfl
  simp [offset, htake]

theorem offset_mono (hs : List (List C)) {j k : ℕ} (h : j ≤ k) : offset hs j ≤ offset hs k := by
  induction k with
  | zero =>
    obtain rfl : j = 0 := by omega
    exact Nat.le_refl _
  | succ k ih =>
    by_cases hj : j = k+1
    · exact Nat.le_of_eq (congrArg (offset hs) hj)
    · refine Nat.le_trans (ih (by omega)) ?_
      cases hk : hs[k]? with
      | some c => rw [offset_step hk]; exact Nat.le_add_right _ _
      | none =>
        have hlen : hs.length ≤ k := List.getElem?_eq_none_iff.mp hk
        have heq : offset hs k=offset hs (k+1) := by
          unfold offset
          rw [List.take_of_length_le hlen, List.take_of_length_le (by omega)]
        exact Nat.le_of_eq heq

theorem at_unique {s : Pipeline C E} {n j k i idx : ℕ} (h : At s n j i) (h' : At s n k idx) :
    j=k ∧ i=idx := by
  obtain ⟨c,hc,hi,hn⟩ := h
  obtain ⟨d,hd,hidx,hn'⟩ := h'
  have h1 := offset_step hc
  have h2 := offset_step hd
  rcases Nat.lt_trichotomy j k with hlt | rfl | hlt
  · have := offset_mono (handles s) (Nat.succ_le_of_lt hlt)
    simp only [Nat.succ_eq_add_one] at this
    omega
  · exact ⟨rfl,by omega⟩
  · have := offset_mono (handles s) (Nat.succ_le_of_lt hlt)
    simp only [Nat.succ_eq_add_one] at this
    omega

theorem offset_length (hs : List (List C)) : offset hs hs.length=hs.flatten.length := by
  rw [offset, List.take_length, List.length_flatten]

theorem offset_append {hs : List (List C)} {k : ℕ} (h : k ≤ hs.length) (more : List (List C)) :
    offset (hs++more) k=offset hs k := by
  rw [offset, offset, List.take_append_of_le_length h]

theorem offset_cons (h : List C) (hs : List (List C)) (k : ℕ) :
    offset (h::hs) (k+1)=h.length+offset hs k := by
  simp [offset]

theorem flatten_at {hs : List (List C)} {k : ℕ} {h : List C} (hk : hs[k]? = some h) {idx : ℕ}
    (hidx : idx < h.length) : hs.flatten[offset hs k+idx]?=h[idx]? := by
  induction hs generalizing k with
  | nil => cases hk
  | cons g hs ih =>
    cases k with
    | zero =>
      obtain rfl : g=h := by simpa using hk
      simp [offset, List.getElem?_append_left hidx]
    | succ k =>
      have ih := ih (k := k) (by simpa using hk)
      rw [offset_cons, List.flatten_cons, List.getElem?_append_right (by omega), ← ih]
      congr 1
      omega

theorem exists_at (hs : List (List C)) {n : ℕ} (hn : n < hs.flatten.length) :
    ∃ k idx h, hs[k]? = some h ∧ idx < h.length ∧ n=offset hs k+idx := by
  induction hs generalizing n with
  | nil => cases hn
  | cons g hs ih =>
    by_cases hlt : n < g.length
    · exact ⟨0,n,g,rfl,hlt,by simp [offset]⟩
    · rw [List.flatten_cons, List.length_append] at hn
      obtain ⟨k,idx,h,hk,hidx,he⟩ := ih (n := n-g.length) (by omega)
      refine ⟨k+1,idx,h,hk,hidx,?_⟩
      rw [offset_cons]
      omega

theorem settlements_eq {f : Flight C E} {start : ℕ}
    (h : f.entries = List.range' start f.commands.length) (reply : Reply E) :
    settlements f reply=
      (List.range f.commands.length).map (fun idx => (start+idx,reply.succeeded idx)) := by
  cases reply with
  | results err =>
    have hone : ∀ idx ∈ List.range f.commands.length,
        (f.entries[idx]?).map (fun entry => (entry,(err idx).isNone)) =
          (some ∘ fun idx => (start+idx,(err idx).isNone)) idx := by
      intro idx hidx
      rw [h, List.getElem?_range' (List.mem_range.mp hidx)]
      simp
    rw [settlements, List.filterMap_congr hone, List.filterMap_eq_map]
    rfl
  | null => simp [settlements, h, List.range'_eq_map_range, Reply.succeeded]
  | failed error => simp [settlements, h, List.range'_eq_map_range, Reply.succeeded]

structure Sound (s : Pipeline C E) : Prop where
  commands : (handles s).flatten++waiting s=s.added
  entries : ∀ k f, s.flights[k]? = some f →
    f.entries = List.range' (offset (handles s) k) f.commands.length
  pendingEntries : s.pendingEntries =
    List.range' (handles s).flatten.length (waiting s).length
  count : s.count=(waiting s).length
  pending : s.pending = none ↔ s.count=0
  keys : (s.settled.map Prod.fst).Nodup
  answers : ∀ n ok, (n,ok) ∈ s.settled ↔ ∃ k idx reply, At s n k idx ∧
    (s.flights[k]?).bind Flight.reply = some reply ∧ ok=reply.succeeded idx

structure Kept (s : Pipeline C E) : Prop extends Sound s where
  timer : s.flushTimer = true ↔ s.pending ≠ none

theorem Kept.armed {s : Pipeline C E} (h : Kept s) : waiting s ≠ [] ↔ s.flushTimer = true := by
  rw [h.timer, ne_eq, ne_eq, h.pending, h.count, List.length_eq_zero_iff]

theorem init_kept : Kept (init : Pipeline C E) := by
  refine ⟨⟨rfl,nofun,rfl,rfl,by simp [init],List.nodup_nil,?_⟩,by simp [init]⟩
  intro n ok
  simp [init, At, handles]

theorem flush_none {s : Pipeline C E} (h : s.pending = none) : flush s=s := by
  simp [flush, h]

theorem flush_some {s : Pipeline C E} (h : Sound s) {commands : List C}
    (hp : s.pending = some commands) : flush s=launch s commands := by
  have hcount : s.count ≠ 0 := by
    intro hc
    rw [h.pending.mpr hc] at hp
    cases hp
  simp [flush, hp, hcount]

theorem handles_launch (s : Pipeline C E) (commands : List C) :
    handles (launch s commands)=handles s++[commands] := by
  simp [handles, launch]

theorem getElem?_push {α : Type*} {l : List α} {a b : α} {k : ℕ} (h : (l++[a])[k]? = some b) :
    (k < l.length ∧ l[k]? = some b) ∨ (k=l.length ∧ a=b) := by
  by_cases hk : k < l.length
  · rw [List.getElem?_append_left hk] at h
    exact .inl ⟨hk,h⟩
  · rw [List.getElem?_append_right (by omega)] at h
    have hlt := (List.getElem?_eq_some_iff.mp h).1
    have hzero : k-l.length=0 := by simpa using hlt
    rw [hzero] at h
    exact .inr ⟨by omega,by simpa using h⟩

theorem at_push {s t : Pipeline C E} {commands : List C} (h : handles t=handles s++[commands])
    {n k idx : ℕ} (hk : k < s.flights.length) : At t n k idx ↔ At s n k idx := by
  have hk' : k < (handles s).length := by simpa [handles] using hk
  unfold At
  rw [h, List.getElem?_append_left hk', offset_append (Nat.le_of_lt hk')]

theorem flush_sound {s : Pipeline C E} (h : Sound s) : Sound (flush s) := by
  cases hp : s.pending with
  | none => rwa [flush_none hp]
  | some commands =>
    rw [flush_some h hp]
    have hwait : waiting s=commands := by simp [waiting, hp]
    have hhandles := handles_launch s commands
    refine ⟨?_,?_,?_,rfl,iff_of_true rfl rfl,h.keys,?_⟩
    · have := h.commands
      rw [hhandles]
      simpa [waiting, launch, hp] using this
    · intro k f hf
      rw [hhandles]
      rcases getElem?_push hf with ⟨hk,hf⟩ | ⟨rfl,rfl⟩
      · rw [offset_append (by simpa [handles] using Nat.le_of_lt hk)]
        exact h.entries k f hf
      · have hlen : s.flights.length=(handles s).length := by simp [handles]
        rw [hlen, offset_append (Nat.le_refl _), offset_length, ← hwait]
        exact h.pendingEntries
    · rfl
    · intro n ok
      refine (h.answers n ok).trans ⟨?_,?_⟩
      · rintro ⟨k,idx,reply,hat,hreply,hok⟩
        have hk : k < s.flights.length := by
          by_contra hge
          rw [List.getElem?_eq_none (by omega)] at hreply
          cases hreply
        refine ⟨k,idx,reply,(at_push hhandles hk).mpr hat,?_,hok⟩
        simp only [launch]
        rwa [List.getElem?_append_left hk]
      · rintro ⟨k,idx,reply,hat,hreply,hok⟩
        obtain ⟨f,hf,hr⟩ := Option.bind_eq_some_iff.mp hreply
        rcases getElem?_push hf with ⟨hk,hf⟩ | ⟨-,rfl⟩
        · refine ⟨k,idx,reply,(at_push hhandles hk).mp hat,?_,hok⟩
          rw [hf, Option.bind_some, hr]
        · cases hr

theorem flush_kept {s : Pipeline C E} (h : Sound s)
    (ht : s.pending = none → s.flushTimer = false) : Kept (flush s) := by
  refine ⟨flush_sound h,?_⟩
  cases hp : s.pending with
  | none => simp [flush_none hp, hp, ht hp]
  | some commands => simp [flush_some h hp, launch]

theorem add_kept (o : Options) {s : Pipeline C E} (h : Kept s) (command : C) :
    Kept (add o s command) := by
  have hadded : s.added.length=(handles s).flatten.length+(waiting s).length := by
    rw [← h.commands, List.length_append]
  have hgathered : Sound { s with
      pending := some (s.pending.getD []++[command])
      pendingEntries := s.pendingEntries++[s.added.length]
      count := s.count+1
      flushTimer := false
      added := s.added++[command] } := by
    refine ⟨?_,h.entries,?_,?_,by simp,h.keys,h.answers⟩
    · have := h.commands
      simp only [handles, waiting, Option.getD_some] at this ⊢
      rw [← this, List.append_assoc]
    · have := h.pendingEntries
      simp only [handles, waiting, Option.getD_some, List.length_append,
        List.length_singleton] at this hadded ⊢
      rw [this, hadded, List.range'_concat]
      simp
    · have := h.count
      simp only [waiting, Option.getD_some, List.length_append, List.length_singleton] at this ⊢
      omega
  unfold add
  dsimp only
  split
  · exact flush_kept hgathered nofun
  · split
    · exact flush_kept hgathered nofun
    · exact ⟨⟨hgathered.commands,hgathered.entries,hgathered.pendingEntries,hgathered.count,
        hgathered.pending,hgathered.keys,hgathered.answers⟩,by simp⟩

theorem handles_land {s : Pipeline C E} {k : ℕ} {f : Flight C E} (hf : s.flights[k]? = some f)
    (reply : Reply E) : handles (land s k f reply)=handles s := by
  have hget : (handles s)[k]? = some f.commands := by simp [handles, hf]
  obtain ⟨hlt,he⟩ := List.getElem?_eq_some_iff.mp hget
  unfold handles land
  rw [List.map_set]
  dsimp only
  rw [← he]
  exact List.set_getElem_self hlt

theorem at_land {s : Pipeline C E} {k : ℕ} {f : Flight C E} (hf : s.flights[k]? = some f)
    (reply : Reply E) (n j idx : ℕ) : At (land s k f reply) n j idx ↔ At s n j idx := by
  unfold At
  rw [handles_land hf]

theorem reply_land {s : Pipeline C E} {k : ℕ} {f : Flight C E} (hf : s.flights[k]? = some f)
    (reply : Reply E) (j : ℕ) : ((land s k f reply).flights[j]?).bind Flight.reply =
      if j=k then some reply else (s.flights[j]?).bind Flight.reply := by
  have hk : k < s.flights.length := (List.getElem?_eq_some_iff.mp hf).1
  unfold land
  by_cases hj : j=k
  · subst hj
    simp [hk]
  · simp only [List.getElem?_set_ne (Ne.symm hj), if_neg hj]

theorem mem_settlements {s : Pipeline C E} (h : Sound s) {k : ℕ} {f : Flight C E}
    (hf : s.flights[k]? = some f) (reply : Reply E) (n : ℕ) (ok : Bool) :
    (n,ok) ∈ settlements f reply ↔ ∃ idx, At s n k idx ∧ ok=reply.succeeded idx := by
  have hget : (handles s)[k]? = some f.commands := by simp [handles, hf]
  rw [settlements_eq (h.entries k f hf) reply]
  simp [At, hget, eq_comm, and_assoc]

theorem land_keys {s : Pipeline C E} (h : Sound s) {k : ℕ} {f : Flight C E}
    (hf : s.flights[k]? = some f) (hwaits : f.reply = none) (reply : Reply E) :
    ((land s k f reply).settled.map Prod.fst).Nodup := by
  have hkeys : (settlements f reply).map Prod.fst=
      List.range' (offset (handles s) k) f.commands.length := by
    rw [settlements_eq (h.entries k f hf) reply, List.range'_eq_map_range]
    simp
  simp only [land, List.map_append]
  rw [List.nodup_append]
  refine ⟨h.keys,by rw [hkeys]; exact List.nodup_range',?_⟩
  rintro n hn m hm rfl
  obtain ⟨⟨n,ok⟩,hold,rfl⟩ := List.mem_map.mp hn
  obtain ⟨⟨n',ok'⟩,hnew,hsame⟩ := List.mem_map.mp hm
  simp only at hsame
  subst hsame
  obtain ⟨j,i,r,hat,hr,-⟩ := (h.answers _ _).mp hold
  obtain ⟨idx,hat',-⟩ := (mem_settlements h hf reply _ _).mp hnew
  rw [(at_unique hat hat').1, hf, Option.bind_some, hwaits] at hr
  cases hr

theorem land_sound {s : Pipeline C E} (h : Sound s) {k : ℕ} {f : Flight C E}
    (hf : s.flights[k]? = some f) (hwaits : f.reply = none) (reply : Reply E) :
    Sound (land s k f reply) := by
  have hhandles := handles_land hf reply
  have hnone : (s.flights[k]?).bind Flight.reply = none := by rw [hf, Option.bind_some, hwaits]
  refine ⟨?_,?_,?_,h.count,h.pending,?_,?_⟩
  · rw [hhandles]
    exact h.commands
  · intro j g hg
    rw [hhandles]
    simp only [land] at hg
    by_cases hj : j=k
    · subst hj
      rw [List.getElem?_set_self (List.getElem?_eq_some_iff.mp hf).1] at hg
      obtain rfl := Option.some.inj hg
      exact h.entries j f hf
    · rw [List.getElem?_set_ne (Ne.symm hj)] at hg
      exact h.entries j g hg
  · rw [hhandles]
    exact h.pendingEntries
  · exact land_keys h hf hwaits reply
  · intro n ok
    simp only [at_land hf, reply_land hf]
    change (n,ok) ∈ s.settled++settlements f reply ↔ _
    rw [List.mem_append, h.answers n ok, mem_settlements h hf]
    constructor
    · rintro (⟨j,idx,r,hat,hr,hok⟩ | ⟨idx,hat,hok⟩)
      · have hj : j ≠ k := by
          rintro rfl
          rw [hnone] at hr
          cases hr
        exact ⟨j,idx,r,hat,by rw [if_neg hj]; exact hr,hok⟩
      · exact ⟨k,idx,reply,hat,if_pos rfl,hok⟩
    · rintro ⟨j,idx,r,hat,hr,hok⟩
      by_cases hj : j=k
      · rw [if_pos hj] at hr
        obtain rfl := Option.some.inj hr
        exact .inr ⟨idx,hj ▸ hat,hok⟩
      · rw [if_neg hj] at hr
        exact .inl ⟨j,idx,r,hat,hr,hok⟩

theorem step_kept (o : Options) {s : Pipeline C E} (h : Kept s) (e : Event C E) :
    Kept (step o s e) := by
  have hidle : s.pending = none → s.flushTimer = false := by
    intro hp
    by_contra ht
    exact h.timer.mp (by simpa using ht) hp
  cases e with
  | add command => exact add_kept o h command
  | timer =>
    unfold step
    dsimp only
    split
    · exact flush_kept h.toSound hidle
    · exact h
  | flush => exact flush_kept h.toSound hidle
  | exec k reply =>
    simp only [step]
    split
    · next hf => exact ⟨land_sound h.toSound hf rfl reply,h.timer⟩
    · exact h

theorem run_kept (o : Options) (es : List (Event C E)) : Kept (run (step o) es init) :=
  run_invariant (I := Kept) (fun _ e _ h => step_kept o h e) es init (meets_any _ _ _) init_kept

def commandsOf : List (Event C E) → List C
  | [] => []
  | .add command::es => command::commandsOf es
  | _::es => commandsOf es

/-- The `exec` of a handle ended with this reply: the first time after its
launch that one ended there. -/
def Answered (o : Options) (es : List (Event C E)) (k : ℕ) (reply : Reply E) : Prop :=
  ∃ pre post, es = pre++.exec k reply::post ∧
    ((run (step o) pre init).flights[k]?).map Flight.reply = some none

theorem flush_added (s : Pipeline C E) : (flush s).added=s.added := by
  unfold flush
  split
  · rfl
  · split <;> rfl

theorem add_added (o : Options) (s : Pipeline C E) (command : C) :
    (add o s command).added=s.added++[command] := by
  unfold add
  dsimp only
  split
  · exact flush_added _
  · split
    · exact flush_added _
    · rfl

theorem step_added (o : Options) (s : Pipeline C E) (e : Event C E) :
    (step o s e).added=s.added++commandsOf [e] := by
  cases e with
  | add command => exact add_added o s command
  | timer =>
    simp only [step]
    split <;> simp [flush_added, commandsOf]
  | flush => simp [step, flush_added, commandsOf]
  | exec k reply =>
    unfold step
    dsimp only
    split <;> simp [land, commandsOf]

theorem commandsOf_cons (e : Event C E) (es : List (Event C E)) :
    commandsOf (e::es)=commandsOf [e]++commandsOf es := by
  cases e <;> rfl

theorem run_added (o : Options) (es : List (Event C E)) (s : Pipeline C E) :
    (run (step o) es s).added=s.added++commandsOf es := by
  induction es generalizing s with
  | nil => simp [commandsOf]
  | cons e es ih => rw [run_cons, ih, step_added, commandsOf_cons e es, List.append_assoc]

theorem flush_reply {s : Pipeline C E} (k : ℕ) :
    ((flush s).flights[k]?).bind Flight.reply=(s.flights[k]?).bind Flight.reply := by
  have hlaunch : ∀ commands, ((launch s commands).flights[k]?).bind Flight.reply=
      (s.flights[k]?).bind Flight.reply := by
    intro commands
    unfold launch
    rcases Nat.lt_trichotomy k s.flights.length with hlt | rfl | hlt
    · simp only [List.getElem?_append_left hlt]
    · simp
    · rw [List.getElem?_eq_none (by simp; omega), List.getElem?_eq_none (by omega)]
  unfold flush
  split
  · rfl
  · split
    · rfl
    · exact hlaunch _

theorem step_reply (o : Options) (s : Pipeline C E) (e : Event C E) (k : ℕ) (reply : Reply E) :
    ((step o s e).flights[k]?).bind Flight.reply = some reply ↔
      (s.flights[k]?).bind Flight.reply = some reply ∨
        e = .exec k reply ∧ (s.flights[k]?).map Flight.reply = some none := by
  cases e with
  | add command =>
    have hsame : ((step o s (.add command)).flights[k]?).bind Flight.reply=
        (s.flights[k]?).bind Flight.reply := by
      show ((add o s command).flights[k]?).bind Flight.reply = _
      unfold add
      dsimp only
      split
      · exact flush_reply k
      · split
        · exact flush_reply k
        · rfl
    simp [hsame]
  | timer =>
    simp only [step]
    split <;> simp [flush_reply]
  | flush => simp [step, flush_reply]
  | exec j answer =>
    simp only [step]
    split
    · next commands entries hf =>
      rw [reply_land hf]
      by_cases hk : k=j
      · subst hk
        simp [hf]
      · simp [hk, Ne.symm hk]
    · next hf =>
      refine ⟨.inl,?_⟩
      rintro (h | ⟨he,h⟩)
      · exact h
      · obtain ⟨rfl,rfl⟩ := Event.exec.inj he
        obtain ⟨⟨commands,entries,r⟩,hget,hr⟩ := Option.map_eq_some_iff.mp h
        dsimp only at hr
        subst hr
        exact absurd hget (hf commands entries)

theorem answered_concat (o : Options) (es : List (Event C E)) (e : Event C E) (k : ℕ)
    (reply : Reply E) : Answered o (es++[e]) k reply ↔ Answered o es k reply ∨
      e = .exec k reply ∧ ((run (step o) es init).flights[k]?).map Flight.reply = some none := by
  constructor
  · rintro ⟨pre,post,he,hwaits⟩
    rcases List.eq_nil_or_concat post with rfl | ⟨post,x,rfl⟩
    · obtain ⟨rfl,hx⟩ := List.append_inj' he rfl
      exact .inr ⟨List.singleton_inj.mp hx,hwaits⟩
    · rw [List.concat_eq_append, ← List.cons_append, ← List.append_assoc] at he
      exact .inl ⟨pre,post,(List.append_inj' he rfl).1,hwaits⟩
  · rintro (⟨pre,post,rfl,hwaits⟩ | ⟨rfl,hwaits⟩)
    · exact ⟨pre,post++[e],by simp,hwaits⟩
    · exact ⟨es,[],rfl,hwaits⟩

theorem run_reply (o : Options) (es : List (Event C E)) (k : ℕ) (reply : Reply E) :
    (((run (step o) es init).flights[k]?).bind Flight.reply = some reply) ↔
      Answered o es k reply := by
  induction es using List.reverseRecOn with
  | nil => simp [init, Answered]
  | append_singleton es e ih =>
    rw [run_append, run_cons, run_nil, step_reply, ih, answered_concat]

theorem flush_waiting {s : Pipeline C E} (h : s.pending = none ∨ s.count ≠ 0) :
    waiting (flush s) = [] := by
  unfold flush
  split
  · next hp => simp [waiting, hp]
  · next commands hp =>
    have hcount : s.count ≠ 0 := h.resolve_left (by simp [hp])
    rw [if_neg hcount]
    rfl

/-- Fewer commands wait than make a full handle, and none do without an idle
interval. -/
def Gathering (o : Options) (s : Pipeline C E) : Prop :=
  waiting s ≠ [] → (waiting s).length < o.batchSize ∧ o.flushIntervalMs ≠ 0

theorem step_gathering (o : Options) {s : Pipeline C E} (h : Kept s) (hg : Gathering o s)
    (e : Event C E) : Gathering o (step o s e) := by
  have hflush : Gathering o (flush s) := by
    intro hne
    exact absurd (flush_waiting (not_or_of_imp h.pending.mpr).symm) hne
  cases e with
  | add command =>
    show Gathering o (add o s command)
    unfold add
    dsimp only
    split
    · exact fun hne => absurd (flush_waiting (.inr (by simp))) hne
    · next hbatch =>
      split
      · exact fun hne => absurd (flush_waiting (.inr (by simp))) hne
      · next hinterval =>
        intro _
        have hlen : (s.pending.getD []++[command]).length=s.count+1 := by
          rw [List.length_append, List.length_singleton, h.count]
          rfl
        refine ⟨?_,hinterval⟩
        show (s.pending.getD []++[command]).length < o.batchSize
        omega
  | timer =>
    simp only [step]
    split
    · exact hflush
    · exact hg
  | flush => exact hflush
  | exec k reply =>
    simp only [step]
    split
    · exact hg
    · exact hg

theorem run_gathering (o : Options) (es : List (Event C E)) :
    Gathering o (run (step o) es init) :=
  (run_invariant (I := fun s => Kept s ∧ Gathering o s)
    (fun _ e _ h => ⟨step_kept o h.1 e,step_gathering o h.1 h.2 e⟩) es init (meets_any _ _ _)
    ⟨init_kept,fun hne => absurd rfl hne⟩).2

/-- In every state: the commands executed and those that wait are those of the
calls of `add`, in order; a promise is settled once at most, exactly when the
`exec` of the handle with its command has ended, and resolved exactly when that
reply says that this command succeeded; the timer is armed while commands wait.
Every command is in one place of one handle or waits. Fewer wait than make a
full handle, and after a flush or the timer none do. -/
theorem pipeline_run (o : Options) (es : List (Event C E)) :
    let s := run (step o) es init
    s.added=commandsOf es ∧
      (handles s).flatten++waiting s=s.added ∧
      (s.settled.map Prod.fst).Nodup ∧
      (∀ n ok, (n,ok) ∈ s.settled ↔ ∃ k idx reply, At s n k idx ∧ Answered o es k reply ∧
        ok=reply.succeeded idx) ∧
      (∀ n, n < (handles s).flatten.length → ∃ k idx, At s n k idx) ∧
      (∀ n k idx j i, At s n k idx → At s n j i → k=j ∧ idx=i) ∧
      (∀ n k idx, At s n k idx → ((handles s)[k]?).bind (·[idx]?)=s.added[n]?) ∧
      (waiting s ≠ [] ↔ s.flushTimer = true) ∧
      (waiting s ≠ [] → (waiting s).length < o.batchSize ∧ o.flushIntervalMs ≠ 0) ∧
      waiting (step o s .flush) = [] ∧ waiting (step o s .timer) = [] := by
  intro s
  have h : Kept s := run_kept o es
  have hflush : waiting (flush s) = [] := flush_waiting (not_or_of_imp h.pending.mpr).symm
  refine ⟨?_,h.commands,h.keys,?_,?_,fun _ _ _ _ _ => at_unique,?_,h.armed,run_gathering o es,
    hflush,?_⟩
  · rw [run_added]
    rfl
  · intro n ok
    simp only [h.answers n ok, s, run_reply]
  · intro n hn
    obtain ⟨k,idx,commands,hk,hidx,he⟩ := exists_at _ hn
    exact ⟨k,idx,commands,hk,hidx,he⟩
  · rintro n k idx ⟨commands,hk,hidx,rfl⟩
    have hflat := flatten_at hk hidx
    have hlt : offset (handles s) k+idx < (handles s).flatten.length := by
      by_contra hge
      rw [List.getElem?_eq_none (by omega), List.getElem?_eq_getElem hidx] at hflat
      cases hflat
    rw [hk, Option.bind_some, ← h.commands, List.getElem?_append_left hlt, hflat]
  · simp only [step]
    split
    · exact hflush
    · next ht => exact not_not.mp (fun hne => ht (h.armed.mp hne))

end Iotistica.RedisPipeline
