import Mathlib.Data.List.Nodup

/-!
# Tables with two unique columns

No two rows share a key and no two share a slot. A plain insertion fails on
either conflict; an insertion that passes over known keys fails only when
the slot of a new key is taken. A statement of several rows inserts all of
them or none.
-/

set_option autoImplicit false

namespace Iotistica

structure UniqueTable (α : Type*) {κ ι : Type*} (key : α → κ) (slot : α → ι) where
  rows : List α
  keys_nodup : (rows.map key).Nodup
  slots_nodup : (rows.map slot).Nodup

namespace UniqueTable
variable {α κ ι : Type*} {key : α → κ} {slot : α → ι}

def empty : UniqueTable α key slot := ⟨[],by simp,by simp⟩

def keys (t : UniqueTable α key slot) : List κ := t.rows.map key

def slots (t : UniqueTable α key slot) : List ι := t.rows.map slot

@[simp] theorem rows_empty : (empty : UniqueTable α key slot).rows = [] := rfl

theorem mem_keys {t : UniqueTable α key slot} {a : α} (h : a ∈ t.rows) : key a ∈ t.keys :=
  List.mem_map_of_mem h

theorem mem_slots {t : UniqueTable α key slot} {a : α} (h : a ∈ t.rows) : slot a ∈ t.slots :=
  List.mem_map_of_mem h

theorem eq_of_key {t : UniqueTable α key slot} {a b : α} (ha : a ∈ t.rows) (hb : b ∈ t.rows)
    (h : key a = key b) : a = b :=
  List.inj_on_of_nodup_map t.keys_nodup ha hb h

theorem nodup_snoc {β : Type*} {f : α → β} {rows : List α} {a : α} (hn : (rows.map f).Nodup)
    (ha : f a ∉ rows.map f) : ((rows++[a]).map f).Nodup := by
  rw [List.map_append, List.map_singleton, List.nodup_append]
  refine ⟨hn,by simp,?_⟩
  intro x hx y hy hxy
  obtain rfl : y = f a := by simpa using hy
  exact ha (hxy ▸ hx)

variable [DecidableEq κ] [DecidableEq ι]

def insert (t : UniqueTable α key slot) (a : α) : Option (UniqueTable α key slot) :=
  if h : key a ∉ t.rows.map key ∧ slot a ∉ t.rows.map slot then
    some ⟨t.rows++[a],nodup_snoc t.keys_nodup h.1,nodup_snoc t.slots_nodup h.2⟩
  else none

def insertAll (t : UniqueTable α key slot) : List α → Option (UniqueTable α key slot)
  | [] => some t
  | a::as => (t.insert a).bind (fun t' => t'.insertAll as)

/-- `ON CONFLICT DO NOTHING` on the key. -/
def insertNew (t : UniqueTable α key slot) (a : α) : Option (UniqueTable α key slot) :=
  if key a ∈ t.keys then some t else t.insert a

def insertNewAll (t : UniqueTable α key slot) : List α → Option (UniqueTable α key slot)
  | [] => some t
  | a::as => (t.insertNew a).bind (fun t' => t'.insertNewAll as)

theorem rows_of_insert {t t' : UniqueTable α key slot} {a : α} (h : t.insert a = some t') :
    t'.rows = t.rows++[a] := by
  unfold insert at h
  split at h
  · rw [← Option.some.inj h]
  · cases h

theorem insert_isSome {t : UniqueTable α key slot} {a : α} (hk : key a ∉ t.keys)
    (hs : slot a ∉ t.slots) : ∃ t', t.insert a = some t' :=
  ⟨_,dif_pos ⟨hk,hs⟩⟩

theorem insert_none {t : UniqueTable α key slot} {a : α} (hs : slot a ∈ t.slots) :
    t.insert a = none := by
  rw [insert, dif_neg]
  exact fun h => h.2 hs

theorem rows_insertAll (t : UniqueTable α key slot) (as : List α)
    (hk : ((t.rows++as).map key).Nodup) (hs : ((t.rows++as).map slot).Nodup) :
    ∃ t', t.insertAll as = some t' ∧ t'.rows = t.rows++as := by
  induction as generalizing t with
  | nil => exact ⟨t,rfl,by simp⟩
  | cons a as ih =>
    have hka : key a ∉ t.keys := by
      intro hm
      rw [List.map_append, List.nodup_append] at hk
      exact hk.2.2 _ hm _ (by simp) rfl
    have hsa : slot a ∉ t.slots := by
      intro hm
      rw [List.map_append, List.nodup_append] at hs
      exact hs.2.2 _ hm _ (by simp) rfl
    obtain ⟨t₁,h₁⟩ := insert_isSome hka hsa
    have hr : t₁.rows++as = t.rows++a::as := by
      rw [rows_of_insert h₁]
      simp
    obtain ⟨t',h',hr'⟩ := ih t₁ (by rw [hr]; exact hk) (by rw [hr]; exact hs)
    refine ⟨t',?_,hr'.trans hr⟩
    rw [insertAll, h₁]
    exact h'

theorem rows_of_insertAll {t t' : UniqueTable α key slot} {as : List α}
    (h : t.insertAll as = some t') : t'.rows = t.rows++as := by
  induction as generalizing t with
  | nil => rw [← Option.some.inj h, List.append_nil]
  | cons a as ih =>
    obtain ⟨t₁,h₁,h₂⟩ := Option.bind_eq_some_iff.mp h
    rw [ih h₂, rows_of_insert h₁]
    simp

theorem subset_of_insertNew {t t' : UniqueTable α key slot} {a : α}
    (h : t.insertNew a = some t') : t.rows ⊆ t'.rows := by
  unfold insertNew at h
  split at h
  · rw [← Option.some.inj h]
    exact fun _ hx => hx
  · rw [rows_of_insert h]
    exact List.subset_append_left _ _

theorem subset_of_insertNewAll {t t' : UniqueTable α key slot} {as : List α}
    (h : t.insertNewAll as = some t') : t.rows ⊆ t'.rows := by
  induction as generalizing t with
  | nil =>
    rw [← Option.some.inj h]
    exact fun _ hx => hx
  | cons a as ih =>
    obtain ⟨t₁,h₁,h₂⟩ := Option.bind_eq_some_iff.mp h
    exact fun _ hx => ih h₂ (subset_of_insertNew h₁ hx)

end UniqueTable

end Iotistica
