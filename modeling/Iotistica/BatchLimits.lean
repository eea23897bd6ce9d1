import Iotistica.ModbusBatches
import Mathlib.Data.List.Chain

/-!
# Limits of the batches

The loop decides on a register from the first register of the current batch
and its end. The end is that of the register added last, so what holds of
the batch being built holds of every batch the loop gives out.
-/

set_option autoImplicit false

namespace Iotistica.Modbus

/-- From the first register's address to the end of the last one. -/
def addressRange : List Register → ℤ
  | [] => 0
  | first::others => (batchEnd first others : ℤ)-first.address

def gap (a b : Register) : ℤ := (b.address : ℤ)-endOf a

structure WithinLimits (gapTolerance : ℤ) (batch : List Register) : Prop where
  nonempty : batch ≠ []
  alone : ∀ r ∈ batch, r.noBatch = true → batch = [r]
  range : batch.length = 1 ∨ addressRange batch ≤ maxBatchSize
  gaps : batch.IsChain (fun a b => gap a b ≤ gapTolerance)

def Batch.last (b : Batch) : Register := b.others.head?.getD b.first

structure Batch.Within (gapTolerance : ℤ) (b : Batch) : Prop where
  currentEnd_eq : b.currentEnd = endOf b.last
  alone : b.others ≠ [] → ∀ r ∈ b.registers, r.noBatch = false
  range : b.others ≠ [] → (b.currentEnd : ℤ)-b.first.address ≤ maxBatchSize
  gaps : b.registers.IsChain (fun a b => gap a b ≤ gapTolerance)

theorem Batch.registers_push (b : Batch) (r : Register) :
    (b.push r).registers = b.registers++[r] := by
  simp [Batch.registers, Batch.push]

theorem Batch.getLast?_registers (b : Batch) : b.registers.getLast? = some b.last := by
  obtain ⟨first,others,currentEnd⟩ := b
  cases others with
  | nil => rfl
  | cons r rest =>
    unfold Batch.registers Batch.last
    rw [List.reverse_cons, ← List.cons_append, List.getLast?_concat]
    rfl

theorem Batch.addressRange_registers {gapTolerance : ℤ} {b : Batch} (h : b.Within gapTolerance) :
    addressRange b.registers = (b.currentEnd : ℤ)-b.first.address := by
  have hlast := b.getLast?_registers
  unfold Batch.registers at hlast
  rw [List.getLast?_eq_some_getLast (List.cons_ne_nil _ _)] at hlast
  unfold Batch.registers
  show (endOf ((b.first::b.others.reverse).getLast _) : ℤ)-b.first.address = _
  rw [Option.some.inj hlast, h.currentEnd_eq]

theorem Batch.start_within (gapTolerance : ℤ) (r : Register) :
    (Batch.start r).Within gapTolerance where
  currentEnd_eq := rfl
  alone h := absurd rfl h
  range h := absurd rfl h
  gaps := List.isChain_singleton r

theorem canBatch_iff {gapTolerance : ℤ} {b : Batch} {r : Register} :
    canBatch gapTolerance b r = true ↔ (r.noBatch = false ∧ b.first.noBatch = false) ∧
      (r.address : ℤ)-b.currentEnd ≤ gapTolerance ∧
      (endOf r : ℤ)-b.first.address ≤ maxBatchSize := by
  simp [canBatch, and_assoc]

/-- A batch of several registers has none that is marked, and a batch of one
takes another only if its first is not. -/
theorem Batch.Within.unmarked {gapTolerance : ℤ} {b : Batch} (h : b.Within gapTolerance)
    (hf : b.first.noBatch = false) : ∀ r ∈ b.registers, r.noBatch = false := by
  by_cases ho : b.others = []
  · intro r hr
    unfold Batch.registers at hr
    rw [ho] at hr
    obtain rfl := List.mem_singleton.mp hr
    exact hf
  · exact h.alone ho

theorem Batch.push_within {gapTolerance : ℤ} {b : Batch} {r : Register}
    (h : b.Within gapTolerance) (hcan : canBatch gapTolerance b r = true) :
    (b.push r).Within gapTolerance := by
  obtain ⟨⟨hr,hf⟩,hgap,hsize⟩ := canBatch_iff.mp hcan
  constructor
  · rfl
  · intro _ q hq
    rw [Batch.registers_push] at hq
    rcases List.mem_append.mp hq with hq | hq
    · exact h.unmarked hf q hq
    · obtain rfl := List.mem_singleton.mp hq
      exact hr
  · intro _
    exact hsize
  · rw [Batch.registers_push]
    apply List.IsChain.append h.gaps (List.isChain_singleton r)
    intro a ha q hq
    rw [b.getLast?_registers] at ha
    obtain rfl := Option.mem_some_iff.mp ha
    obtain rfl := Option.mem_some_iff.mp hq
    unfold gap
    rw [← h.currentEnd_eq]
    exact hgap

theorem Batch.Within.limits {gapTolerance : ℤ} {b : Batch} (h : b.Within gapTolerance) :
    WithinLimits gapTolerance b.registers where
  nonempty := List.cons_ne_nil _ _
  alone r hr hmark := by
    by_cases ho : b.others = []
    · unfold Batch.registers at hr ⊢
      rw [ho] at hr ⊢
      rw [List.mem_singleton.mp hr]
      rfl
    · rw [h.alone ho r hr] at hmark
      cases hmark
  range := by
    by_cases ho : b.others = []
    · left
      simp [Batch.registers, ho]
    · right
      rw [Batch.addressRange_registers h]
      exact h.range ho
  gaps := h.gaps

theorem joinBatches_limits {gapTolerance : ℤ} {b : Batch} (h : b.Within gapTolerance)
    (rest : List Register) :
    ∀ batch ∈ joinBatches gapTolerance b rest, WithinLimits gapTolerance batch := by
  induction rest generalizing b with
  | nil =>
    intro batch hb
    obtain rfl := List.mem_singleton.mp hb
    exact h.limits
  | cons r rest ih =>
    unfold joinBatches
    split
    · next hcan => exact ih (Batch.push_within h hcan)
    · intro batch hb
      rcases List.mem_cons.mp hb with rfl | hb
      · exact h.limits
      · exact ih (Batch.start_within gapTolerance r) batch hb

theorem optimizeBatches_limits (gapTolerance : ℤ) (registers : List Register) :
    ∀ batch ∈ optimizeBatches gapTolerance registers, WithinLimits gapTolerance batch := by
  unfold optimizeBatches
  cases sortByAddress registers with
  | nil => exact fun batch hb => (List.not_mem_nil hb).elim
  | cons r rest => exact joinBatches_limits (Batch.start_within gapTolerance r) rest

/-- The batches cut the registers, sorted by address, into pieces that each
keep the limits of one read. -/
theorem batches_partition (gapTolerance : ℤ) (registers : List Register) :
    ((optimizeBatches gapTolerance registers).flatten = sortByAddress registers ∧
      (sortByAddress registers).Pairwise (fun a b => a.address ≤ b.address) ∧
      (sortByAddress registers).Perm registers) ∧
    ∀ batch ∈ optimizeBatches gapTolerance registers,
      batch ≠ [] ∧ (∀ r ∈ batch, r.noBatch = true → batch = [r]) ∧
      (batch.length = 1 ∨ addressRange batch ≤ maxBatchSize) ∧
      batch.IsChain (fun a b => gap a b ≤ gapTolerance) := by
  refine ⟨⟨flatten_optimizeBatches gapTolerance registers,?_,?_⟩,?_⟩
  · exact List.pairwise_insertionSort (fun a b : Register => a.address ≤ b.address) registers
  · exact List.perm_insertionSort _ registers
  · intro batch hb
    have h := optimizeBatches_limits gapTolerance registers batch hb
    exact ⟨h.nonempty,h.alone,h.range,h.gaps⟩

end Iotistica.Modbus
