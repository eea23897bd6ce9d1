import Mathlib.Logic.Function.Basic
import Mathlib.Order.Basic

/-!
# A lease on one key

A register holds one owner and the time at which its lease runs out. An
owner takes the key when no lease on it is running, extends a running lease
of its own, and gives it back. The ledger beside it notes when an owner was
last confirmed, unless it has given the key back since. An owner whose
confirmation is younger than a lease holds the key, so there is at most one,
and two confirmations in the ledger lie at least a lease apart.
-/

set_option autoImplicit false

namespace Iotistica.LeaseRegister

structure Register (I : Type*) where
  holder : Option (I × ℕ)
  deriving DecidableEq

abbrev Ledger (I : Type*) := I → Option ℕ

inductive Request where
  | take
  | extend
  | giveBack
  deriving DecidableEq

variable {I : Type*}

def Register.owner (r : Register I) (now : ℕ) : Option I :=
  match r.holder with
  | some (i,ends) => if now < ends then some i else none
  | none => none

def Request.granted [DecidableEq I] (q : Request) (now : ℕ) (i : I) (r : Register I) : Bool :=
  match q with
  | .take => r.owner now = none
  | .extend => r.owner now = some i
  | .giveBack => r.owner now = some i

def Request.serve [DecidableEq I] (q : Request) (ttl now : ℕ) (i : I) (r : Register I) : Register I :=
  if q.granted now i r then
    match q with
    | .giveBack => ⟨none⟩
    | _ => ⟨some (i,now+ttl)⟩
  else r

def Request.note [DecidableEq I] (q : Request) (now : ℕ) (i : I) (r : Register I)
    (c : Ledger I) : Ledger I :=
  if q.granted now i r then
    match q with
    | .giveBack => Function.update c i none
    | _ => Function.update c i (some now)
  else c

structure Kept (ttl now : ℕ) (r : Register I) (c : Ledger I) : Prop where
  past : ∀ i t, c i = some t → t ≤ now
  running : ∀ i t, c i = some t → now < t+ttl → r.holder = some (i,t+ttl)
  apart : ∀ i j s t, i ≠ j → c i = some s → c j = some t → s+ttl ≤ t ∨ t+ttl ≤ s

theorem kept_start (ttl now : ℕ) : Kept ttl now (⟨none⟩ : Register I) (fun _ => none) :=
  ⟨by simp,by simp,by simp⟩

theorem kept_later {ttl now : ℕ} {r : Register I} {c : Ledger I} (h : Kept ttl now r c) (d : ℕ) :
    Kept ttl (now+d) r c := by
  constructor
  · intro i t ht
    have hp := h.past i t ht
    omega
  · intro i t ht hlt
    exact h.running i t ht (by omega)
  · exact h.apart

theorem Kept.owner {ttl now : ℕ} {r : Register I} {c : Ledger I} (h : Kept ttl now r c)
    {i : I} {t : ℕ} (ht : c i = some t) (hlt : now < t+ttl) : r.owner now = some i := by
  simp [Register.owner, h.running i t ht hlt, hlt]

variable [DecidableEq I]

theorem kept_confirm {ttl now : ℕ} {r : Register I} {c : Ledger I} (h : Kept ttl now r c)
    {i : I} (hfree : ∀ j, j ≠ i → r.owner now ≠ some j) :
    Kept ttl now ⟨some (i,now+ttl)⟩ (Function.update c i (some now)) := by
  have hover : ∀ j t, j ≠ i → c j = some t → t+ttl ≤ now := by
    intro j t hj ht
    by_contra hlt
    exact hfree j hj (h.owner ht (by omega))
  constructor
  · intro j t ht
    by_cases hj : j = i
    · subst hj
      rw [Function.update_self, Option.some.injEq] at ht
      omega
    · rw [Function.update_of_ne hj] at ht
      exact h.past j t ht
  · intro j t ht hlt
    by_cases hj : j = i
    · subst hj
      rw [Function.update_self, Option.some.injEq] at ht
      rw [ht]
    · rw [Function.update_of_ne hj] at ht
      have hle := hover j t hj ht
      omega
  · intro j k s t hjk hs ht
    by_cases hj : j = i
    · have hk : k ≠ i := fun hk => hjk (hj.trans hk.symm)
      subst hj
      rw [Function.update_self, Option.some.injEq] at hs
      rw [Function.update_of_ne hk] at ht
      have hle := hover k t hk ht
      omega
    · rw [Function.update_of_ne hj] at hs
      by_cases hk : k = i
      · subst hk
        rw [Function.update_self, Option.some.injEq] at ht
        have hle := hover j s hj hs
        omega
      · rw [Function.update_of_ne hk] at ht
        exact h.apart j k s t hjk hs ht

theorem kept_drop {ttl now : ℕ} {r : Register I} {c : Ledger I} (h : Kept ttl now r c)
    {i : I} (howner : r.owner now = some i) :
    Kept ttl now ⟨none⟩ (Function.update c i none) := by
  have hold : ∀ j t, Function.update c i none j = some t → j ≠ i ∧ c j = some t := by
    intro j t ht
    by_cases hj : j = i
    · subst hj
      simp at ht
    · rw [Function.update_of_ne hj] at ht
      exact ⟨hj,ht⟩
  constructor
  · intro j t ht
    exact h.past j t (hold j t ht).2
  · intro j t ht hlt
    have hj := hold j t ht
    have ho := (h.owner hj.2 hlt).symm.trans howner
    exact absurd (Option.some.inj ho) hj.1
  · intro j k s t hjk hs ht
    exact h.apart j k s t hjk (hold j s hs).2 (hold k t ht).2

theorem kept_serve {ttl now : ℕ} {r : Register I} {c : Ledger I} (h : Kept ttl now r c)
    (q : Request) (i : I) : Kept ttl now (q.serve ttl now i r) (q.note now i r c) := by
  unfold Request.serve Request.note
  by_cases hg : q.granted now i r = true
  · rw [if_pos hg, if_pos hg]
    cases q with
    | take =>
      have ho : r.owner now = none := by simpa [Request.granted] using hg
      exact kept_confirm h (fun j _ => by simp [ho])
    | extend =>
      have ho : r.owner now = some i := by simpa [Request.granted] using hg
      exact kept_confirm h (fun j hj => by simp [ho, Ne.symm hj])
    | giveBack =>
      have ho : r.owner now = some i := by simpa [Request.granted] using hg
      exact kept_drop h ho
  · rw [if_neg hg, if_neg hg]
    exact h

theorem note_other (q : Request) (now : ℕ) (r : Register I) (c : Ledger I) {i j : I}
    (hj : j ≠ i) : q.note now i r c j = c j := by
  unfold Request.note
  by_cases hg : q.granted now i r = true
  · cases q <;> simp [hg, hj]
  · simp [hg]

theorem note_isSome (q : Request) (now : ℕ) (r : Register I) (c : Ledger I) (i j : I)
    (hq : j = i → q ≠ .giveBack) (hc : (c j).isSome) : (q.note now i r c j).isSome := by
  by_cases hj : j = i
  · subst hj
    unfold Request.note
    cases q with
    | take => by_cases hg : Request.take.granted now j r = true <;> simp [hg, hc]
    | extend => by_cases hg : Request.extend.granted now j r = true <;> simp [hg, hc]
    | giveBack => exact absurd rfl (hq rfl)
  · rwa [note_other q now r c hj]

theorem note_take (now : ℕ) (r : Register I) (c : Ledger I) (i : I)
    (hg : Request.take.granted now i r = true) :
    (Request.take.note now i r c i).isSome := by
  simp [Request.note, hg]

end Iotistica.LeaseRegister
