import Mathlib.Data.Int.Notation
import Iotistica.OrderedMap

/-!
# Alerts held back by a map of time stamps

A key raises an alert when its last one is a cooldown ago, and is stamped
then. The map holds a bounded number of keys, and a key beyond them goes
without a stamp. As long as every alert finds room for its stamp, the alerts
of a key keep the cooldown.
-/

set_option autoImplicit false

namespace Iotistica.CooldownMap

structure Limits where
  cap : ℕ
  cooldown : ℤ

variable {κ : Type} [DecidableEq κ] (l : Limits)

def hasRoom (m : OrderedMap κ ℤ) (k : κ) : Bool := m.has k || decide (m.size < l.cap)

def passes (m : OrderedMap κ ℤ) (now : ℤ) (k : κ) : Bool :=
  decide (l.cooldown ≤ now-(m.get? k).getD 0)

def touch (m : OrderedMap κ ℤ) (now : ℤ) (k : κ) : OrderedMap κ ℤ :=
  if hasRoom l m k then m.set k now else m

def stamps : OrderedMap κ ℤ → List (ℤ × κ) → OrderedMap κ ℤ
  | m, [] => m
  | m, a::as => if passes l m a.1 a.2 then stamps (touch l m a.1 a.2) as else stamps m as

def alerts : OrderedMap κ ℤ → List (ℤ × κ) → List (ℤ × κ)
  | _, [] => []
  | m, a::as =>
    if passes l m a.1 a.2 then a::alerts (touch l m a.1 a.2) as else alerts m as

def Roomy : OrderedMap κ ℤ → List (ℤ × κ) → Prop
  | _, [] => True
  | m, a::as =>
    if passes l m a.1 a.2 then hasRoom l m a.2 = true ∧ Roomy (touch l m a.1 a.2) as
    else Roomy m as

instance Roomy.decidable :
    (m : OrderedMap κ ℤ) → (as : List (ℤ × κ)) → Decidable (Roomy l m as)
  | _, [] => .isTrue trivial
  | m, a::as =>
    have := Roomy.decidable (touch l m a.1 a.2) as
    have := Roomy.decidable m as
    inferInstanceAs (Decidable (if passes l m a.1 a.2 then
      hasRoom l m a.2 = true ∧ Roomy l (touch l m a.1 a.2) as else Roomy l m as))

theorem stamps_append (m : OrderedMap κ ℤ) (as bs : List (ℤ × κ)) :
    stamps l m (as++bs) = stamps l (stamps l m as) bs := by
  induction as generalizing m with
  | nil => rfl
  | cons a as ih =>
    simp only [List.cons_append, stamps]
    split
    · exact ih _
    · exact ih _

theorem alerts_append (m : OrderedMap κ ℤ) (as bs : List (ℤ × κ)) :
    alerts l m (as++bs) = alerts l m as++alerts l (stamps l m as) bs := by
  induction as generalizing m with
  | nil => rfl
  | cons a as ih =>
    simp only [List.cons_append, alerts, stamps]
    split
    · rw [ih, List.cons_append]
    · exact ih _

theorem roomy_append (m : OrderedMap κ ℤ) (as bs : List (ℤ × κ)) :
    Roomy l m (as++bs) ↔ Roomy l m as ∧ Roomy l (stamps l m as) bs := by
  induction as generalizing m with
  | nil => simp [Roomy, stamps]
  | cons a as ih =>
    simp only [List.cons_append, Roomy, stamps]
    split
    · rw [ih, and_assoc]
    · exact ih _

theorem alerts_sublist (m : OrderedMap κ ℤ) (as : List (ℤ × κ)) :
    (alerts l m as).Sublist as := by
  induction as generalizing m with
  | nil => exact List.Sublist.slnil
  | cons a as ih =>
    simp only [alerts]
    split
    · exact (ih _).cons_cons a
    · exact (ih _).cons a

variable {l}

theorem get?_touch_ne (m : OrderedMap κ ℤ) (now : ℤ) {k j : κ} (h : j ≠ k) :
    (touch l m now k).get? j = m.get? j := by
  unfold touch
  split
  · rw [OrderedMap.get?_set, if_neg h]
  · rfl

theorem get?_touch_self {m : OrderedMap κ ℤ} {now : ℤ} {k : κ} (h : hasRoom l m k = true) :
    (touch l m now k).get? k = some now := by
  rw [touch, if_pos h, OrderedMap.get?_set, if_pos rfl]

/-- A stamped key does not alert before its cooldown is over, however full
the map is. -/
theorem alerts_after_stamp {m : OrderedMap κ ℤ} {k : κ} {t : ℤ} {as : List (ℤ × κ)}
    (hm : m.get? k = some t) (hclock : as.Pairwise (fun a b => a.1 ≤ b.1)) :
    ∀ a ∈ alerts l m as, a.2 = k → l.cooldown ≤ a.1-t := by
  induction as generalizing m with
  | nil => nofun
  | cons b as ih =>
    obtain ⟨hb,hclock⟩ := List.pairwise_cons.mp hclock
    simp only [alerts]
    split
    · rename_i hpass
      rintro a ha rfl
      by_cases hkey : b.2 = a.2
      · have hgap : l.cooldown ≤ b.1-t := by
          have h := of_decide_eq_true hpass
          rw [hkey, hm] at h
          exact h
        rcases List.mem_cons.mp ha with rfl | ha
        · exact hgap
        · have hle := hb a ((alerts_sublist l _ _).subset ha)
          omega
      · rcases List.mem_cons.mp ha with rfl | ha
        · exact absurd rfl hkey
        · have hstamp : (touch l m b.1 b.2).get? a.2 = some t := by
            rw [get?_touch_ne m b.1 (Ne.symm hkey), hm]
          exact ih hstamp hclock a ha rfl
    · exact ih hm hclock

theorem alerts_spaced {m : OrderedMap κ ℤ} {as : List (ℤ × κ)}
    (hclock : as.Pairwise (fun a b => a.1 ≤ b.1)) (hroom : Roomy l m as) :
    (alerts l m as).Pairwise (fun a b => a.2 = b.2 → l.cooldown ≤ b.1-a.1) := by
  induction as generalizing m with
  | nil => exact List.Pairwise.nil
  | cons a as ih =>
    obtain ⟨-,hrest⟩ := List.pairwise_cons.mp hclock
    simp only [alerts]
    simp only [Roomy] at hroom
    split
    · rename_i hpass
      rw [if_pos hpass] at hroom
      refine List.pairwise_cons.mpr ⟨?_,ih hrest hroom.2⟩
      intro b hb hkey
      exact alerts_after_stamp (get?_touch_self hroom.1) hrest b hb hkey.symm
    · rename_i hpass
      rw [if_neg hpass] at hroom
      exact ih hrest hroom

theorem attempts_at_once {m : OrderedMap κ ℤ} (now : ℤ) {ks : List κ} (hn : ks.Nodup) :
    stamps l m (ks.map (fun k => (now,k))) =
        (ks.filter (passes l m now)).foldl (fun m k => touch l m now k) m ∧
      alerts l m (ks.map (fun k => (now,k))) =
        (ks.filter (passes l m now)).map (fun k => (now,k)) := by
  induction ks generalizing m with
  | nil => exact ⟨rfl,rfl⟩
  | cons k ks ih =>
    obtain ⟨hk,hn⟩ := List.nodup_cons.mp hn
    simp only [List.map_cons, stamps, alerts]
    by_cases hpass : passes l m now k = true
    · have hsame : ks.filter (passes l (touch l m now k) now) = ks.filter (passes l m now) := by
        apply List.filter_congr
        intro j hj
        have hne : j ≠ k := fun h => hk (h ▸ hj)
        unfold passes
        rw [get?_touch_ne m now hne]
      obtain ⟨hstamps,halerts⟩ := ih (m := touch l m now k) hn
      rw [if_pos hpass, if_pos hpass, List.filter_cons_of_pos hpass, hstamps, halerts, hsame]
      exact ⟨rfl,rfl⟩
    · rw [if_neg hpass, if_neg hpass, List.filter_cons_of_neg hpass]
      exact ih hn

end Iotistica.CooldownMap
