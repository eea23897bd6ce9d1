import Iotistica.BufferLocking
import Iotistica.GuardedRun

/-!
# Exclusive claims on buffered records

Flushers and inline publishers share one store. The log keeps, newest
first, who was handed which record when and who gave it back. A claim lasts
for the lock timeout; the operations that end one are keyed on the row id
alone, so a claimant whose lock has been taken over can still release the
row of the new holder. Exclusivity holds in every run without such a call.
-/

set_option autoImplicit false

namespace Iotistica.BufferClaims
open Iotistica.KeyedTable Iotistica.GuardedRun Iotistica.BufferStore Iotistica.BufferDeletion
open Iotistica.BufferLocking

abbrev Claimant := ℕ

inductive Event where
  | dequeueReady (who : Claimant) (limit : ℤ) (maxRetries : Option ℕ) (scope : Scope)
      (lockId : String)
  | enqueueClaimed (who : Claimant) (record : NewRecord) (lockId : String)
  | markRetryFailed (who : Claimant) (id : ℕ) (error : String) (nextRetryAt : Option ℤ)
  | deleteByIds (who : Claimant) (ids : List ℕ)
  | cleanupExpired (maxRetries : Option ℕ)
  | elapse (ms : ℕ)
  deriving DecidableEq, Repr

inductive Entry where
  | handed (who : Claimant) (id : ℕ) (time : ℤ)
  | released (who : Claimant) (id : ℕ)
  deriving DecidableEq, Repr

structure State where
  store : Store
  now : ℤ
  log : List Entry

variable (lockTimeout : ℤ)

def step (s : State) : Event → State
  | .dequeueReady who limit maxRetries scope lockId =>
    let out := dequeueReady s.store limit s.now lockTimeout maxRetries scope lockId
    { s with store := out.1, log := out.2.map (fun r => .handed who r.id s.now)++s.log }
  | .enqueueClaimed who record lockId =>
    let out := enqueueClaimed s.store record lockId s.now s.now
    { s with store := out.1, log := .handed who out.2 s.now::s.log }
  | .markRetryFailed who id error nextRetryAt =>
    { s with
      store := markRetryFailed s.store id error nextRetryAt s.now
      log := .released who id::s.log }
  | .deleteByIds _ ids => { s with store := (deleteByIds s.store ids).1 }
  | .cleanupExpired maxRetries =>
    { s with store := (cleanupExpired s.store maxRetries lockTimeout s.now).1 }
  | .elapse ms => { s with now := s.now+ms }

def Entry.hands (who : Claimant) (id : ℕ) : Entry → Bool
  | .handed w i _ => w == who && i == id
  | .released _ _ => false

def WasHanded (log : List Entry) (who : Claimant) (id : ℕ) : Prop :=
  log.any (Entry.hands who id) = true

/-- Lock ids drawn by a dequeue are new, and a claimant only settles
records it was handed. -/
def Legal (s : State) : Event → Prop
  | .dequeueReady _ _ _ _ lockId => FreshLock lockId s.store
  | .markRetryFailed who id _ _ => WasHanded s.log who id
  | .deleteByIds who ids => ∀ id ∈ ids, WasHanded s.log who id
  | _ => True

instance (s : State) : (e : Event) → Decidable (Legal s e)
  | .dequeueReady _ _ _ _ lockId => inferInstanceAs (Decidable (FreshLock lockId s.store))
  | .markRetryFailed who id _ _ =>
    inferInstanceAs (Decidable (s.log.any (Entry.hands who id) = true))
  | .deleteByIds who ids =>
    inferInstanceAs (Decidable (∀ id ∈ ids, s.log.any (Entry.hands who id) = true))
  | .enqueueClaimed .. | .cleanupExpired _ | .elapse _ => .isTrue trivial

def lastHanded : List Entry → ℕ → Option Claimant
  | [], _ => none
  | .handed who i _::log, id => if i = id then some who else lastHanded log id
  | .released _ _::log, id => lastHanded log id

/-- `who` was handed `id` at `t` and has not released it since. -/
def Unreleased (log : List Entry) (who : Claimant) (id : ℕ) (t : ℤ) : Prop :=
  ∃ mid old, log = mid++Entry.handed who id t::old ∧ Entry.released who id ∉ mid

/-- No record is handed out within the lock timeout of an earlier claim on
it, unless that claimant released it in between. -/
def Exclusive (log : List Entry) : Prop :=
  ∀ new B id t' rest, log = new++Entry.handed B id t'::rest →
    ∀ A t, Unreleased rest A id t → t+lockTimeout < t'

/-- A call by a claimant that is not the last one the record was handed to
leaves a locked row as it is. -/
def HolderKept (s : State) : Event → Prop
  | .markRetryFailed who id error nextRetryAt =>
    ∀ r ∈ s.store.table.rows, r.id = id → r.status = .sending → lastHanded s.log id ≠ some who →
      r ∈ (step lockTimeout s (.markRetryFailed who id error nextRetryAt)).store.table.rows
  | _ => True

/-- No claimant marks a record as failed while it is locked under a later
claim of somebody else. -/
def Timely (s : State) : Event → Prop
  | .markRetryFailed who id _ _ =>
    ∀ r ∈ s.store.table.rows, r.id = id → r.status = .sending → lastHanded s.log id = some who
  | _ => True

instance (s : State) : (e : Event) → Decidable (Timely s e)
  | .markRetryFailed who id _ _ =>
    inferInstanceAs (Decidable (∀ r ∈ s.store.table.rows, r.id = id → r.status = .sending →
      lastHanded s.log id = some who))
  | .dequeueReady .. | .deleteByIds .. | .enqueueClaimed .. | .cleanupExpired _ | .elapse _ =>
    .isTrue trivial

def batch (who : Claimant) (now : ℤ) (rs : List MessageBufferRecord) : List Entry :=
  rs.map (fun r => .handed who r.id now)

theorem unreleased_handed (log : List Entry) (A B : Claimant) (id i : ℕ) (t t' : ℤ) :
    Unreleased (.handed B i t'::log) A id t ↔
      (A = B ∧ id = i ∧ t = t') ∨ Unreleased log A id t := by
  constructor
  · rintro ⟨mid,old,he,hn⟩
    cases mid with
    | nil =>
      simp only [List.nil_append, List.cons.injEq, Entry.handed.injEq] at he
      exact Or.inl ⟨he.1.1.symm,he.1.2.1.symm,he.1.2.2.symm⟩
    | cons e mid =>
      simp only [List.cons_append, List.cons.injEq] at he
      exact Or.inr ⟨mid,old,he.2,fun h => hn (by simp [h])⟩
  · rintro (⟨rfl,rfl,rfl⟩ | ⟨mid,old,rfl,hn⟩)
    · exact ⟨[],log,rfl,by simp⟩
    · exact ⟨.handed B i t'::mid,old,rfl,by simpa using hn⟩

theorem unreleased_released (log : List Entry) (A who : Claimant) (id i : ℕ) (t : ℤ) :
    Unreleased (.released who i::log) A id t ↔ ¬(A = who ∧ id = i) ∧ Unreleased log A id t := by
  constructor
  · rintro ⟨mid,old,he,hn⟩
    cases mid with
    | nil => simp at he
    | cons e mid =>
      simp only [List.cons_append, List.cons.injEq] at he
      obtain ⟨rfl,rfl⟩ := he
      exact ⟨fun h => hn (by simp [h.1, h.2]),mid,old,rfl,fun h => hn (by simp [h])⟩
  · rintro ⟨hne,mid,old,rfl,hn⟩
    refine ⟨.released who i::mid,old,rfl,?_⟩
    intro h
    rcases List.mem_cons.mp h with h | h
    · simp only [Entry.released.injEq] at h
      exact hne h
    · exact hn h

theorem unreleased_batch (log : List Entry) (who A : Claimant) (now t : ℤ) (id : ℕ)
    (rs : List MessageBufferRecord) :
    Unreleased (batch who now rs++log) A id t ↔
      (A = who ∧ t = now ∧ ∃ r ∈ rs, r.id = id) ∨ Unreleased log A id t := by
  induction rs with
  | nil => simp [batch]
  | cons r rs ih =>
    change Unreleased (.handed who r.id now::(batch who now rs++log)) A id t ↔ _
    rw [unreleased_handed, ih]
    constructor
    · rintro (⟨rfl,rfl,rfl⟩ | ⟨rfl,rfl,a,ha,hi⟩ | h)
      · exact Or.inl ⟨rfl,rfl,r,by simp,rfl⟩
      · exact Or.inl ⟨rfl,rfl,a,by simp [ha],hi⟩
      · exact Or.inr h
    · rintro (⟨rfl,rfl,a,ha,rfl⟩ | h)
      · rcases List.mem_cons.mp ha with rfl | ha
        · exact Or.inl ⟨rfl,rfl,rfl⟩
        · exact Or.inr (Or.inl ⟨rfl,rfl,a,ha,rfl⟩)
      · exact Or.inr (Or.inr h)

theorem lastHanded_batch (log : List Entry) (who : Claimant) (now : ℤ) (id : ℕ)
    (rs : List MessageBufferRecord) :
    lastHanded (batch who now rs++log) id =
      if ∃ r ∈ rs, r.id = id then some who else lastHanded log id := by
  induction rs with
  | nil => simp [batch]
  | cons r rs ih =>
    change (if r.id = id then some who else lastHanded (batch who now rs++log) id) = _
    rw [ih]
    by_cases h : r.id = id <;> simp [h]

variable {lockTimeout}

theorem exclusive_handed {log : List Entry} {B : Claimant} {i : ℕ} {t' : ℤ}
    (hx : Exclusive lockTimeout log)
    (h : ∀ A t, Unreleased log A i t → t+lockTimeout < t') :
    Exclusive lockTimeout (.handed B i t'::log) := by
  intro new C id u rest he A t hu
  cases new with
  | nil =>
    simp only [List.nil_append, List.cons.injEq, Entry.handed.injEq] at he
    obtain ⟨⟨rfl,rfl,rfl⟩,rfl⟩ := he
    exact h A t hu
  | cons e new =>
    simp only [List.cons_append, List.cons.injEq] at he
    exact hx new C id u rest he.2 A t hu

theorem exclusive_released {log : List Entry} (who : Claimant) (i : ℕ)
    (hx : Exclusive lockTimeout log) : Exclusive lockTimeout (.released who i::log) := by
  intro new C id u rest he A t hu
  cases new with
  | nil => simp at he
  | cons e new =>
    simp only [List.cons_append, List.cons.injEq] at he
    exact hx new C id u rest he.2 A t hu

theorem exclusive_batch {log : List Entry} {who : Claimant} {now : ℤ}
    {rs : List MessageBufferRecord} (hx : Exclusive lockTimeout log)
    (hn : (rs.map MessageBufferRecord.id).Nodup)
    (h : ∀ r ∈ rs, ∀ A t, Unreleased log A r.id t → t+lockTimeout < now) :
    Exclusive lockTimeout (batch who now rs++log) := by
  induction rs with
  | nil => exact hx
  | cons r rs ih =>
    obtain ⟨hr,hn⟩ := List.nodup_cons.mp hn
    refine exclusive_handed (ih hn (fun a ha => h a (by simp [ha]))) ?_
    intro A t hu
    rcases (unreleased_batch log who A now t r.id rs).mp hu with ⟨_,_,a,ha,hi⟩ | hu
    · exact absurd (List.mem_map.mpr ⟨a,ha,hi⟩) hr
    · exact h r (by simp) A t hu

def Held (s : State) (A : Claimant) (id : ℕ) (t : ℤ) : Prop :=
  ∀ r ∈ s.store.table.rows, r.id = id →
    r.status = .sending ∧ r.lockedAt = some t ∧ lastHanded s.log id = some A

variable (lockTimeout) in
structure Inv (s : State) : Prop where
  issued : ∀ who id t, Entry.handed who id t ∈ s.log → id < s.store.table.next
  held : ∀ A id t, Unreleased s.log A id t → t+lockTimeout < s.now ∨ Held s A id t
  exclusive : Exclusive lockTimeout s.log

theorem unreleased_mem {log : List Entry} {A : Claimant} {id : ℕ} {t : ℤ}
    (h : Unreleased log A id t) : Entry.handed A id t ∈ log := by
  obtain ⟨mid,old,rfl,_⟩ := h
  simp

theorem inv_shrink {s s' : State} (hi : Inv lockTimeout s) (hl : s'.log = s.log)
    (hnow : s.now ≤ s'.now) (hnext : s.store.table.next ≤ s'.store.table.next)
    (hrow : ∀ r' ∈ s'.store.table.rows, ∃ r ∈ s.store.table.rows, r.id = r'.id ∧
      (r' = r ∨ ∀ t, r.status = .sending → r.lockedAt = some t → t+lockTimeout < s'.now)) :
    Inv lockTimeout s' where
  issued := by
    intro who id t h
    rw [hl] at h
    exact lt_of_lt_of_le (hi.issued who id t h) hnext
  held := by
    intro A id t hu
    rw [hl] at hu
    rcases hi.held A id t hu with h | h
    · exact Or.inl (by omega)
    · by_cases hp : ∃ r' ∈ s'.store.table.rows, r'.id = id ∧ r' ∉ s.store.table.rows
      · obtain ⟨r',hr',hid,hout⟩ := hp
        obtain ⟨r,hr,he,hc⟩ := hrow r' hr'
        obtain ⟨hs,hlk,_⟩ := h r hr (he.trans hid)
        rcases hc with rfl | hc
        · exact absurd hr hout
        · exact Or.inl (hc t hs hlk)
      · push Not at hp
        right
        intro r' hr' hid
        rw [hl]
        exact h r' (hp r' hr' hid) hid
  exclusive := by
    rw [hl]
    exact hi.exclusive

theorem before_lt {a : ℤ} {x : Option ℤ} {t : ℤ} (h : x = some t) (hb : before x a = true) :
    t < a := by
  subst h
  simpa [before] using hb

theorem claimable_free {s : State} (hi : Inv lockTimeout s) {r : MessageBufferRecord}
    (hr : r ∈ s.store.table.rows) (hc : claimable (s.now-lockTimeout) r = true)
    (A : Claimant) (t : ℤ) (hu : Unreleased s.log A r.id t) : t+lockTimeout < s.now := by
  rcases hi.held A r.id t hu with h | h
  · exact h
  · obtain ⟨hs,hl,_⟩ := h r hr rfl
    have hb : before r.lockedAt (s.now-lockTimeout) = true := by
      simpa [claimable, queuedUnlocked, hs] using hc
    have := before_lt hl hb
    omega

theorem dequeue_inv (s : State) (who : Claimant) (limit : ℤ) (maxRetries : Option ℕ)
    (scope : Scope) (lockId : String) (hf : FreshLock lockId s.store) (hi : Inv lockTimeout s) :
    Inv lockTimeout (step lockTimeout s (.dequeueReady who limit maxRetries scope lockId)) := by
  have hd := dequeueReady_dequeued s.store limit s.now lockTimeout maxRetries scope lockId
  simp only [step]
  generalize (dequeueReady s.store limit s.now lockTimeout maxRetries scope lockId).1 = st at *
  generalize (dequeueReady s.store limit s.now lockTimeout maxRetries scope lockId).2 = rs at *
  cases hd with
  | idle => exact hi
  | locked target hready hsome t ht records hrec hnodup =>
    subst ht
    have hret := returned_iff hf hrec
    have hfree : ∀ r ∈ rs, ∀ A u, Unreleased s.log A r.id u → u+lockTimeout < s.now := by
      intro r hr A u hu
      obtain ⟨a,ha,hta,rfl⟩ := (hret r).mp hr
      exact claimable_free hi ha (ready_claimable (hready a ha hta)) A u hu
    change Inv lockTimeout ⟨_,s.now,batch who s.now rs++s.log⟩
    constructor
    · intro w id u hm
      rcases List.mem_append.mp hm with hb | ho
      · obtain ⟨r,hr,he⟩ := List.mem_map.mp hb
        obtain ⟨a,ha,_,rfl⟩ := (hret r).mp hr
        simp only [Entry.handed.injEq] at he
        rw [← he.2.1]
        exact s.store.table.below a ha
      · exact hi.issued w id u ho
    · intro A id u hu
      simp only [Held, lastHanded_batch]
      rcases (unreleased_batch s.log who A s.now u id rs).mp hu with ⟨rfl,rfl,r,hr,rfl⟩ | hu
      · -- the row was locked by this very dequeue
        right
        obtain ⟨a,ha,hta,rfl⟩ := (hret r).mp hr
        intro r' hr' hid
        have hrow := Table.mem_update_of_key s.store.table ha hr' hid
        rw [hta, if_pos rfl] at hrow
        rw [hrow, if_pos ⟨_,hr,rfl⟩]
        exact ⟨rfl,rfl,rfl⟩
      · rcases hi.held A id u hu with h | h
        · exact Or.inl h
        · by_cases hin : ∃ r ∈ rs, r.id = id
          · obtain ⟨r,hr,rfl⟩ := hin
            exact Or.inl (hfree r hr A u hu)
          · right
            intro r' hr' hid
            obtain ⟨b,hb,rfl⟩ := (Table.mem_update ..).mp hr'
            have hnt : target b = false := by
              by_contra hc
              have htb : target b = true := by simpa using hc
              exact hin ⟨_,(hret _).mpr ⟨b,hb,htb,rfl⟩,by simpa [htb, lockRow] using hid⟩
            simp only [hnt, Bool.false_eq_true, if_false, if_neg hin] at hid ⊢
            exact h b hb hid
    · exact exclusive_batch hi.exclusive hnodup hfree

theorem enqueueClaimed_inv (s : State) (who : Claimant) (record : NewRecord) (lockId : String)
    (hi : Inv lockTimeout s) :
    Inv lockTimeout (step lockTimeout s (.enqueueClaimed who record lockId)) := by
  have hnext := insertRecord_next s.store record .sending (some lockId) (some s.now) s.now
  simp only [step, enqueueClaimed]
  change Inv lockTimeout ⟨_,s.now,.handed who s.store.table.next s.now::s.log⟩
  have hnew : ∀ A t, ¬Unreleased s.log A s.store.table.next t := by
    intro A t hu
    exact absurd (hi.issued A _ t (unreleased_mem hu)) (lt_irrefl _)
  constructor
  · intro w id t hm
    simp only [hnext]
    rcases List.mem_cons.mp hm with h | h
    · simp only [Entry.handed.injEq] at h
      omega
    · exact (hi.issued w id t h).trans (Nat.lt_succ_self _)
  · intro A id t hu
    rcases (unreleased_handed ..).mp hu with ⟨rfl,rfl,rfl⟩ | hu
    · right
      intro r hr hid
      rcases mem_insertRecord hr with h | rfl
      · exact absurd hid (s.store.table.below r h).ne
      · simp [newRow, lastHanded]
    · rcases hi.held A id t hu with h | h
      · exact Or.inl h
      · right
        intro r hr hid
        have hne : s.store.table.next ≠ id := fun e => hnew A t (e ▸ hu)
        rcases mem_insertRecord hr with hro | rfl
        · simpa [lastHanded, hne] using h r hro hid
        · exact absurd hid hne
  · exact exclusive_handed hi.exclusive (fun A t hu => absurd hu (hnew A t))

theorem markRetryFailed_inv (s : State) (who : Claimant) (id : ℕ) (error : String)
    (nextRetryAt : Option ℤ) (ht : Timely s (.markRetryFailed who id error nextRetryAt))
    (hi : Inv lockTimeout s) :
    Inv lockTimeout (step lockTimeout s (.markRetryFailed who id error nextRetryAt)) := by
  constructor
  · intro w i t hm
    rcases List.mem_cons.mp hm with h | h
    · simp at h
    · exact hi.issued w i t h
  · intro A i t hu
    obtain ⟨hne,hu⟩ := (unreleased_released ..).mp hu
    rcases hi.held A i t hu with h | h
    · exact Or.inl h
    · right
      intro r' hr' hid
      obtain ⟨r,hr,rfl⟩ := (mem_markRetryFailed ..).mp hr'
      have hri : r.id = i := by
        rw [← hid]
        split <;> rfl
      obtain ⟨hs,hl,hlast⟩ := h r hr hri
      by_cases hrid : r.id = id
      · -- the caller would be the last claimant, so its claim is the one released
        have hw := ht r hr hrid hs
        rw [← hrid, hri, hlast] at hw
        exact absurd ⟨Option.some.inj hw,hri ▸ hrid⟩ hne
      · simp only [hrid, if_false]
        exact ⟨hs,hl,hlast⟩
  · exact exclusive_released who id hi.exclusive

theorem deleteByIds_inv (s : State) (who : Claimant) (ids : List ℕ) (hi : Inv lockTimeout s) :
    Inv lockTimeout (step lockTimeout s (.deleteByIds who ids)) := by
  have hd : (step lockTimeout s (.deleteByIds who ids)).store.table = _ :=
    deleteByIds_table s.store ids
  apply inv_shrink hi
  · rfl
  · exact le_refl _
  · rw [hd]
    exact le_refl _
  · intro r hr
    rw [hd] at hr
    exact ⟨r,((Table.mem_delete ..).mp hr).1,rfl,Or.inl rfl⟩

theorem cleanupExpired_inv (s : State) (maxRetries : Option ℕ) (hi : Inv lockTimeout s) :
    Inv lockTimeout (step lockTimeout s (.cleanupExpired maxRetries)) := by
  have ht : (step lockTimeout s (.cleanupExpired maxRetries)).store.table = _ :=
    cleanupExpired_table s.store maxRetries lockTimeout s.now
  apply inv_shrink hi
  · rfl
  · exact le_refl _
  · rw [ht]
    exact le_refl _
  · intro r hr
    rw [ht, Table.mem_delete] at hr
    obtain ⟨b,hb,rfl⟩ := (Table.mem_update ..).mp hr.1
    obtain ⟨a,ha,rfl⟩ := (Table.mem_update ..).mp hb
    refine ⟨a,ha,by split <;> split <;> rfl,?_⟩
    by_cases hs : a.status = .sending
    · by_cases hl : before a.lockedAt (s.now-lockTimeout) = true
      · right
        intro t _ hlt
        have := before_lt hlt hl
        change t+lockTimeout < s.now
        omega
      · left
        simp [hs, hl]
    · right
      intro t h
      exact absurd h hs

theorem elapse_inv (s : State) (ms : ℕ) (hi : Inv lockTimeout s) :
    Inv lockTimeout (step lockTimeout s (.elapse ms)) := by
  apply inv_shrink hi
  · rfl
  · simp only [step]
    omega
  · exact le_refl _
  · intro r hr
    exact ⟨r,hr,rfl,Or.inl rfl⟩

theorem step_inv (s : State) (e : Event) (hl : Legal s e) (ht : Timely s e)
    (hi : Inv lockTimeout s) : Inv lockTimeout (step lockTimeout s e) := by
  cases e with
  | dequeueReady who limit maxRetries scope lockId =>
    exact dequeue_inv s who limit maxRetries scope lockId hl hi
  | enqueueClaimed who record lockId => exact enqueueClaimed_inv s who record lockId hi
  | markRetryFailed who id error nextRetryAt =>
    exact markRetryFailed_inv s who id error nextRetryAt ht hi
  | deleteByIds who ids => exact deleteByIds_inv s who ids hi
  | cleanupExpired maxRetries => exact cleanupExpired_inv s maxRetries hi
  | elapse ms => exact elapse_inv s ms hi

theorem timely_keeps_holder (s : State) (e : Event) (ht : Timely s e) : HolderKept lockTimeout s e := by
  cases e with
  | markRetryFailed who id error nextRetryAt =>
    intro r hr hid hs hne
    exact absurd (ht r hr hid hs) hne
  | _ => trivial

theorem start_inv (st : Store) (now : ℤ) : Inv lockTimeout ⟨st,now,[]⟩ where
  issued := by simp
  held := by
    rintro A id t ⟨mid,old,he,_⟩
    simp at he
  exclusive := by
    intro new B id t' rest he
    simp at he

/-- From any store, in every interleaving without a late failure report,
claims are exclusive for the lock timeout and no holder loses its lock to
an earlier claimant. -/
theorem claims_exclusive_when_timely (lockTimeout : ℤ) (st : Store) (now : ℤ) (es : List Event)
    (hm : Meets (step lockTimeout) (fun s e => Legal s e ∧ Timely s e) es ⟨st,now,[]⟩) :
    Exclusive lockTimeout (run (step lockTimeout) es ⟨st,now,[]⟩).log ∧
      Meets (step lockTimeout) (HolderKept lockTimeout) es ⟨st,now,[]⟩ := by
  constructor
  · exact (run_invariant (fun s e h => step_inv s e h.1 h.2) es _ hm (start_inv st now)).exclusive
  · exact meets_mono (fun s e h => timely_keeps_holder s e h.2) es _ hm

def sample : NewRecord where
  endpointName := "temperature"
  topic := "devices/temperature"
  qos := 1
  payload := "21"
  msgId := none
  isCritical := none

def oneRecord : Store := (enqueue (emptyStore defaultMetadata) sample 0).1

def anyScope : Scope := ⟨none,none⟩

/-- A second claimant takes over an expired lock and gives the record back
before a third one claims it. -/
def takeOver : List Event :=
  [.dequeueReady 1 10 none anyScope "a",.elapse 900001,.dequeueReady 2 10 none anyScope "b",
    .markRetryFailed 2 1 "timeout" none,.dequeueReady 3 10 none anyScope "c"]

theorem claims_exclusive_take_over :
    Meets (step defaultLockTimeoutMs) (fun s e => Legal s e ∧ Timely s e) takeOver
      ⟨oneRecord,0,[]⟩ ∧
    Exclusive defaultLockTimeoutMs (run (step defaultLockTimeoutMs) takeOver ⟨oneRecord,0,[]⟩).log ∧
    Meets (step defaultLockTimeoutMs) (HolderKept defaultLockTimeoutMs) takeOver
      ⟨oneRecord,0,[]⟩ :=
  have hm : Meets (step defaultLockTimeoutMs) (fun s e => Legal s e ∧ Timely s e) takeOver
      ⟨oneRecord,0,[]⟩ := by decide
  ⟨hm,claims_exclusive_when_timely defaultLockTimeoutMs oneRecord 0 takeOver hm⟩

/-- The same take-over, except that the first claimant reports its failure
after it has lost the lock. -/
def lateReport : List Event :=
  [.dequeueReady 1 10 none anyScope "a",.elapse 900001,.dequeueReady 2 10 none anyScope "b",
    .markRetryFailed 1 1 "timeout" none,.dequeueReady 3 10 none anyScope "c"]

/-- The late report releases the lock of the second claimant, and the
record is handed to a third one within the lock timeout. -/
theorem late_report_breaks_exclusivity :
    ¬∀ es, Meets (step defaultLockTimeoutMs) Legal es ⟨oneRecord,0,[]⟩ →
      Exclusive defaultLockTimeoutMs (run (step defaultLockTimeoutMs) es ⟨oneRecord,0,[]⟩).log ∧
      Meets (step defaultLockTimeoutMs) (HolderKept defaultLockTimeoutMs) es ⟨oneRecord,0,[]⟩ := by
  intro h
  have hl : (run (step defaultLockTimeoutMs) lateReport ⟨oneRecord,0,[]⟩).log =
      [.handed 3 1 900001,.released 1 1,.handed 2 1 900001,.handed 1 1 0] := by decide
  have hx := (h lateReport (by decide)).1
  rw [hl] at hx
  have := hx [] 3 1 900001 _ rfl 2 900001 ⟨[.released 1 1],[.handed 1 1 0],rfl,by decide⟩
  simp [defaultLockTimeoutMs] at this

end Iotistica.BufferClaims
