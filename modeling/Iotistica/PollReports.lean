import Iotistica.ModbusPolls

/-!
# Every register once

A read in progress covers a run of registers at a position of the poll, and
what it has finished reports them as the last request said. A step keeps
this, and it makes the work that is left smaller.
-/

set_option autoImplicit false

namespace Iotistica.ModbusPolls
open Iotistica.Modbus
open Iotistica.ModbusLock (Client)

theorem map_joinNamed (gapTolerance : ℤ) (b : Batch) (batch rest : List ModbusRegister)
    (h : batch.reverse.map ModbusRegister.toRegister = b.registers) :
    (joinNamed gapTolerance b batch rest).map (List.map ModbusRegister.toRegister) =
      joinBatches gapTolerance b (rest.map ModbusRegister.toRegister) := by
  induction rest generalizing b batch with
  | nil => simp [joinNamed, joinBatches, ← h]
  | cons r rest ih =>
    rw [List.map_cons]
    unfold joinNamed joinBatches
    split
    · apply ih
      rw [List.reverse_cons, List.map_append, h, Batch.registers_push]
      rfl
    · rw [List.map_cons, ih (.start r.toRegister) [r] rfl, h]

theorem map_sortNamed (registers : List ModbusRegister) :
    (sortNamed registers).map ModbusRegister.toRegister =
      sortByAddress (registers.map ModbusRegister.toRegister) :=
  List.map_insertionSort _ _ _ _ (fun _ _ _ _ => Iff.rfl)

theorem map_optimizeNamed (gapTolerance : ℤ) (registers : List ModbusRegister) :
    (optimizeNamed gapTolerance registers).map (List.map ModbusRegister.toRegister) =
      optimizeBatches gapTolerance (registers.map ModbusRegister.toRegister) := by
  unfold optimizeNamed optimizeBatches
  rw [← map_sortNamed]
  cases sortNamed registers with
  | nil => rfl
  | cons r rest => exact map_joinNamed gapTolerance (.start r.toRegister) [r] rest rfl

theorem optimizeNamed_nonempty {gapTolerance : ℤ} {registers batch : List ModbusRegister}
    (h : batch ∈ optimizeNamed gapTolerance registers) : batch ≠ [] := by
  have hm := List.mem_map_of_mem (f := List.map ModbusRegister.toRegister) h
  rw [map_optimizeNamed] at hm
  have hne := (optimizeBatches_limits gapTolerance _ _ hm).nonempty
  exact fun he => hne (by rw [he]; rfl)

theorem flatten_joinNamed (gapTolerance : ℤ) (b : Batch) (batch rest : List ModbusRegister) :
    (joinNamed gapTolerance b batch rest).flatten = batch.reverse++rest := by
  induction rest generalizing b batch with
  | nil => simp [joinNamed]
  | cons r rest ih =>
    unfold joinNamed
    split
    · rw [ih, List.reverse_cons, List.append_assoc]
      rfl
    · rw [List.flatten_cons, ih]
      rfl

theorem flatten_optimizeNamed (gapTolerance : ℤ) (registers : List ModbusRegister) :
    (optimizeNamed gapTolerance registers).flatten = sortNamed registers := by
  unfold optimizeNamed
  cases sortNamed registers with
  | nil => rfl
  | cons r rest => exact flatten_joinNamed gapTolerance (.start r.toRegister) [r] rest

/-- The registers in the order in which a poll reads them. -/
def pollOrder (device : ModbusDevice) : List ModbusRegister := (precomputedBatches device).flatten

theorem filter_groups_perm {α : Type} (key : α → FunctionCode) (codes : List FunctionCode)
    (h : codes.Nodup) (xs : List α) :
    (codes.flatMap (fun code => xs.filter (fun x => key x = code))).Perm
      (xs.filter (fun x => key x ∈ codes)) := by
  induction codes generalizing xs with
  | nil => simp
  | cons code codes ih =>
    obtain ⟨hnot,hnodup⟩ := List.nodup_cons.mp h
    have hsplit := List.filter_append_perm (fun x => decide (key x = code))
      (xs.filter (fun x => key x ∈ code::codes))
    have hfirst : (xs.filter (fun x => key x ∈ code::codes)).filter (fun x => key x = code) =
        xs.filter (fun x => key x = code) := by
      rw [List.filter_filter]
      apply List.filter_congr
      intro x _
      by_cases hx : key x = code <;> simp [hx]
    have hothers : (xs.filter (fun x => key x ∈ code::codes)).filter
        (fun x => !decide (key x = code)) = xs.filter (fun x => key x ∈ codes) := by
      rw [List.filter_filter]
      apply List.filter_congr
      intro x _
      by_cases hx : key x = code
      · simp [hx, hnot]
      · simp [hx]
    rw [hfirst, hothers] at hsplit
    rw [List.flatMap_cons]
    exact ((ih hnodup xs).append_left _).trans hsplit

theorem mem_functionCodes (code : FunctionCode) : code ∈ functionCodes := by
  cases code <;> decide

theorem pollOrder_perm (device : ModbusDevice) : (pollOrder device).Perm device.registers := by
  have hgroups := filter_groups_perm (fun r : ModbusRegister => r.functionCode) functionCodes
    (by decide) device.registers
  have hall : device.registers.filter (fun r => r.functionCode ∈ functionCodes) =
      device.registers := by
    apply List.filter_eq_self.mpr
    intro r _
    exact decide_eq_true (mem_functionCodes _)
  rw [hall] at hgroups
  refine List.Perm.trans ?_ hgroups
  unfold pollOrder precomputedBatches
  generalize functionCodes = codes
  induction codes with
  | nil => rfl
  | cons code codes ih =>
    rw [List.flatMap_cons, List.flatten_append, List.flatMap_cons, flatten_optimizeNamed]
    exact (List.perm_insertionSort _ _).append ih

theorem precomputedBatches_nonempty {device : ModbusDevice} {batch : List ModbusRegister}
    (h : batch ∈ precomputedBatches device) : batch ≠ [] := by
  obtain ⟨code,-,hb⟩ := List.mem_flatMap.mp h
  exact optimizeNamed_nonempty hb

theorem length_mapM {α β ε : Type} {f : α → Except ε β} {xs : List α} {ys : List β}
    (h : xs.mapM f = .ok ys) : ys.length = xs.length := by
  induction xs generalizing ys with
  | nil =>
    obtain rfl : ys = [] := by cases h; rfl
    rfl
  | cons x xs ih =>
    rw [List.mapM_cons] at h
    cases hx : f x with
    | error e =>
      rw [hx] at h
      cases h
    | ok y =>
      cases hxs : xs.mapM f with
      | error e =>
        rw [hx, hxs] at h
        cases h
      | ok zs =>
        rw [hx, hxs] at h
        obtain rfl : ys = y::zs := by cases h; rfl
        rw [List.length_cons, List.length_cons, ih hxs]

theorem readRegisterBatch_length {registers : List ModbusRegister} {outcome : Outcome}
    {values : List Value} (h : readRegisterBatch registers outcome = .ok values) :
    values.length = registers.length := by
  unfold readRegisterBatch at h
  split at h
  · cases h
    rfl
  · cases h
  · split at h
    · exact length_mapM h
    · cases h

theorem length_batchAnswers (registers : List ModbusRegister) (outcome : Outcome) :
    (batchAnswers registers outcome).length = registers.length := by
  unfold batchAnswers
  cases h : readRegisterBatch registers outcome with
  | error errorMessage => exact List.length_map ..
  | ok values =>
    simp only [List.length_map]
    exact readRegisterBatch_length h

theorem record_inside (last : Record) (first : ℕ) (answers : List Answer) {i : ℕ}
    (h : i < answers.length) : record last first answers (first+i) = answers[i]? := by
  unfold record
  rw [if_pos ⟨Nat.le_add_right _ _,by omega⟩, Nat.add_sub_cancel_left]

theorem record_outside (last : Record) (first : ℕ) (answers : List Answer) {i : ℕ}
    (h : i < first ∨ first+answers.length ≤ i) : record last first answers i = last i :=
  if_neg (by omega)

section Coverage
variable (device : ModbusDevice) (timestamp : String)

/-- One point for each register in order, as the last request on its
position said. -/
structure Reported (last : Record) (start : ℕ) (registers : List ModbusRegister)
    (points : List DeviceDataPoint) : Prop where
  length_eq : points.length = registers.length
  point_of : ∀ i r, registers[i]? = some r →
    ∃ answer, last (start+i) = some answer ∧ points[i]? = some (point device timestamp r answer)

inductive Covers (last : Record) : Task → ℕ → List ModbusRegister → Prop
  | single (r : ModbusRegister) (retryCount start : ℕ) : Covers last (.single r retryCount) start [r]
  | batch (registers : List ModbusRegister) (retryCount : ℕ) (fallback : Bool) (start : ℕ)
      (several : 2 ≤ registers.length) :
      Covers last (.batch registers retryCount fallback) start registers
  | halves (left right : Task) (start : ℕ) (ls rs : List ModbusRegister)
      (coversLeft : Covers last left start ls)
      (coversRight : Covers last right (start+ls.length) rs)
      (unfinished : ∀ a b, left = .done a → right ≠ .done b) :
      Covers last (.halves left right) start (ls++rs)
  | done (points : List DeviceDataPoint) (start : ℕ) (registers : List ModbusRegister)
      (reported : Reported device timestamp last start registers points) :
      Covers last (.done points) start registers

variable {device : ModbusDevice} {timestamp : String} {last last' : Record} {start : ℕ}

theorem Reported.nil : Reported device timestamp last start [] [] where
  length_eq := rfl
  point_of i r h := by simp at h

theorem Reported.append {ls rs : List ModbusRegister} {ps qs : List DeviceDataPoint}
    (hl : Reported device timestamp last start ls ps)
    (hr : Reported device timestamp last (start+ls.length) rs qs) :
    Reported device timestamp last start (ls++rs) (ps++qs) where
  length_eq := by rw [List.length_append, List.length_append, hl.length_eq, hr.length_eq]
  point_of i r h := by
    by_cases hi : i < ls.length
    · rw [List.getElem?_append_left hi] at h
      rw [List.getElem?_append_left (by rw [hl.length_eq]; exact hi)]
      exact hl.point_of i r h
    · rw [List.getElem?_append_right (by omega)] at h
      rw [List.getElem?_append_right (by rw [hl.length_eq]; omega), hl.length_eq]
      obtain ⟨answer,hlast,hpoint⟩ := hr.point_of _ r h
      have hadd : start+ls.length+(i-ls.length) = start+i := by omega
      rw [hadd] at hlast
      exact ⟨answer,hlast,hpoint⟩

theorem Reported.congr {registers : List ModbusRegister} {points : List DeviceDataPoint}
    (h : Reported device timestamp last start registers points)
    (hsame : ∀ i, start ≤ i → i < start+registers.length → last' i = last i) :
    Reported device timestamp last' start registers points where
  length_eq := h.length_eq
  point_of i r hr := by
    obtain ⟨hi,-⟩ := List.getElem?_eq_some_iff.mp hr
    obtain ⟨answer,hlast,hpoint⟩ := h.point_of i r hr
    exact ⟨answer,(hsame _ (Nat.le_add_right _ _) (by omega)).trans hlast,hpoint⟩

theorem Reported.of_answers {registers : List ModbusRegister} {answers : List Answer}
    (h : answers.length = registers.length) :
    Reported device timestamp (record last start answers) start registers
      (List.zipWith (point device timestamp) registers answers) where
  length_eq := by rw [List.length_zipWith, h, Nat.min_self]
  point_of i r hr := by
    obtain ⟨hi,-⟩ := List.getElem?_eq_some_iff.mp hr
    obtain ⟨a,ha⟩ : ∃ a, answers[i]? = some a := ⟨_,List.getElem?_eq_getElem (by omega)⟩
    refine ⟨a,?_,?_⟩
    · rw [record_inside last start answers (by omega), ha]
    · rw [List.getElem?_zipWith, hr, ha]

theorem Covers.size {task : Task} {registers : List ModbusRegister}
    (h : Covers device timestamp last task start registers) : task.size = registers.length := by
  induction h with
  | single r retryCount start => rfl
  | batch registers retryCount fallback start several => rfl
  | halves left right start ls rs _ _ _ ihl ihr =>
    rw [Task.size, ihl, ihr, List.length_append]
  | done points start registers reported => exact reported.length_eq

theorem Covers.congr {task : Task} {registers : List ModbusRegister}
    (h : Covers device timestamp last task start registers)
    (hsame : ∀ i, start ≤ i → i < start+registers.length → last' i = last i) :
    Covers device timestamp last' task start registers := by
  induction h with
  | single r retryCount start => exact .single r retryCount start
  | batch registers retryCount fallback start several =>
    exact .batch registers retryCount fallback start several
  | halves left right start ls rs _ _ unfinished ihl ihr =>
    rw [List.length_append] at hsame
    exact .halves left right start ls rs (ihl (fun i h h' => hsame i h (by omega)))
      (ihr (fun i h h' => hsame i (by omega) (by omega))) unfinished
  | done points start registers reported => exact .done points start registers (reported.congr hsame)

theorem Covers.join {left right : Task} {ls rs : List ModbusRegister}
    (hl : Covers device timestamp last left start ls)
    (hr : Covers device timestamp last right (start+ls.length) rs) :
    Covers device timestamp last (join left right) start (ls++rs) := by
  unfold ModbusPolls.join
  split
  · cases hl with
    | done _ _ _ reported =>
      cases hr with
      | done _ _ _ reported' => exact .done _ _ _ (reported.append reported')
  · next hopen =>
    refine .halves left right start ls rs hl hr ?_
    rintro a b rfl rfl
    exact hopen a b rfl rfl

theorem covers_fallback (last : Record) (start : ℕ) (registers : List ModbusRegister) :
    Covers device timestamp last (readBatchSmartFallback registers) start registers := by
  unfold readBatchSmartFallback
  split
  · exact .done [] start [] .nil
  · exact .single _ 0 start
  · next hnil hone =>
    refine .batch registers 0 true start ?_
    match registers, hnil, hone with
    | [], hnil, _ => exact absurd rfl hnil
    | [r], _, hone => exact absurd rfl (hone r)
    | _::_::_, _, _ => simp

theorem covers_startBatch (last : Record) (start : ℕ) {registers : List ModbusRegister}
    (h : registers ≠ []) :
    Covers device timestamp last (startBatch registers) start registers := by
  unfold startBatch
  split
  · exact .single _ 0 start
  · next hone =>
    refine .batch registers 0 false start ?_
    match registers, h, hone with
    | [], h, _ => exact absurd rfl h
    | [r], _, hone => exact absurd rfl (hone r)
    | _::_::_, _, _ => simp

theorem settleSingle_covers (r : ModbusRegister) (retryCount : ℕ) (outcome : Outcome) :
    Covers device timestamp (record last start [readRegister r outcome])
      (settleSingle device timestamp r retryCount outcome).1 start [r] := by
  have hdone : Covers device timestamp (record last start [readRegister r outcome])
      (.done [point device timestamp r (readRegister r outcome)]) start [r] :=
    .done _ _ _ (@Reported.of_answers _ _ _ _ [r] [readRegister r outcome] rfl)
  unfold settleSingle
  split
  · next value h =>
    rw [h] at hdone ⊢
    exact hdone
  · next errorMessage h =>
    rw [h] at hdone ⊢
    split
    · exact hdone
    · split
      · exact .single r (retryCount+1) start
      · exact hdone

theorem settleBatch_covers {registers : List ModbusRegister} (several : 2 ≤ registers.length)
    (retryCount : ℕ) (fallback : Bool) (outcome : Outcome) :
    Covers device timestamp (record last start (batchAnswers registers outcome))
      (settleBatch device timestamp registers retryCount fallback outcome).1 start registers := by
  unfold settleBatch
  split
  · next values h =>
    have hanswers : batchAnswers registers outcome = values.map .ok := by
      unfold batchAnswers
      rw [h]
    have hzip : List.zipWith (createGoodDataPoint device timestamp) registers values =
        List.zipWith (point device timestamp) registers (batchAnswers registers outcome) := by
      rw [hanswers, List.zipWith_map_right]
      rfl
    rw [hzip]
    exact .done _ _ _ (Reported.of_answers (length_batchAnswers registers outcome))
  · split
    · exact .batch registers (retryCount+1) fallback start several
    · split
      · have hhalves := @Covers.join device timestamp _ _ _ _ _ _
          (covers_fallback (record last start (batchAnswers registers outcome)) start
            (registers.take (registers.length/2)))
          (covers_fallback _ _ (registers.drop (registers.length/2)))
        rw [List.take_append_drop] at hhalves
        exact hhalves
      · exact covers_fallback _ start registers

/-- A settled request answers for positions of its own task only, and the
task still covers its registers. -/
theorem settle_covers {task : Task} {registers : List ModbusRegister}
    (h : Covers device timestamp last task start registers) {outcome : Outcome} {path : List Half}
    {s : Settled} (hs : task.settle device timestamp outcome path start = some s) :
    start ≤ s.first ∧ s.first+s.answers.length ≤ start+registers.length ∧
      Covers device timestamp (record last s.first s.answers) s.task start registers := by
  induction h generalizing path s with
  | single r retryCount start =>
    cases path with
    | cons half path => cases hs
    | nil =>
      obtain rfl := Option.some.inj hs
      exact ⟨le_rfl,le_rfl,settleSingle_covers r retryCount outcome⟩
  | batch registers retryCount fallback start several =>
    cases path with
    | cons half path => cases hs
    | nil =>
      obtain rfl := Option.some.inj hs
      refine ⟨le_rfl,?_,settleBatch_covers several retryCount fallback outcome⟩
      simp only [length_batchAnswers, le_refl]
  | halves left right start ls rs hl hr unfinished ihl ihr =>
    rw [List.length_append]
    cases path with
    | nil => cases hs
    | cons half path =>
      cases half with
      | left =>
        obtain ⟨s',hs',rfl⟩ := Option.map_eq_some_iff.mp hs
        obtain ⟨hfirst,hlast,hcovers⟩ := ihl hs'
        refine ⟨hfirst,by simp only; omega,hcovers.join (hr.congr ?_)⟩
        intro i hi _
        exact record_outside last _ _ (Or.inr (by omega))
      | right =>
        obtain ⟨s',hs',rfl⟩ := Option.map_eq_some_iff.mp hs
        rw [hl.size] at hs'
        obtain ⟨hfirst,hlast,hcovers⟩ := ihr hs'
        refine ⟨by simp only; omega,by simp only; omega,Covers.join (hl.congr ?_) hcovers⟩
        intro i _ hi
        exact record_outside last _ _ (Or.inl (by simp only; omega))
  | done points start registers reported => cases hs

theorem Covers.outstanding {task : Task} {registers : List ModbusRegister}
    (h : Covers device timestamp last task start registers) :
    (∃ points, task = .done points) ∨
      ∃ path, ∀ outcome, (task.settle device timestamp outcome path start).isSome := by
  induction h with
  | single r retryCount start => exact Or.inr ⟨[],fun _ => rfl⟩
  | batch registers retryCount fallback start several => exact Or.inr ⟨[],fun _ => rfl⟩
  | halves left right start ls rs hl hr unfinished ihl ihr =>
    right
    rcases ihl with ⟨a,ha⟩ | ⟨path,hpath⟩
    · rcases ihr with ⟨b,hb⟩ | ⟨path,hpath⟩
      · exact absurd hb (unfinished a b ha)
      · refine ⟨.right::path,fun outcome => ?_⟩
        show (Option.map _ (right.settle device timestamp outcome path (start+left.size))).isSome
        rw [Option.isSome_map, hl.size]
        exact hpath outcome
    · refine ⟨.left::path,fun outcome => ?_⟩
      show (Option.map _ (left.settle device timestamp outcome path start)).isSome
      rw [Option.isSome_map]
      exact hpath outcome
  | done points start registers reported => exact Or.inl ⟨points,rfl⟩

end Coverage

def Task.weight : Task → ℕ
  | .single _ retryCount => maxRetries-retryCount+1
  | .batch registers retryCount fallback =>
    maxBatchRetries-retryCount+1+(7*registers.length-6)+(if fallback then 0 else 3)
  | .halves left right => left.weight+right.weight
  | .done _ => 0

theorem weight_join (left right : Task) : (join left right).weight = left.weight+right.weight := by
  unfold join
  split
  · rfl
  · rfl

theorem weight_fallback (registers : List ModbusRegister) :
    (readBatchSmartFallback registers).weight ≤ 7*registers.length-3 := by
  unfold readBatchSmartFallback
  split
  · exact Nat.zero_le _
  · exact le_rfl
  · next hnil hone =>
    have hpos : 0 < registers.length := List.length_pos_iff.mpr hnil
    simp only [Task.weight, maxBatchRetries, if_true]
    omega

theorem weight_startBatch {registers : List ModbusRegister} (h : registers ≠ []) :
    (startBatch registers).weight ≤ 7*registers.length := by
  have hpos : 0 < registers.length := List.length_pos_iff.mpr h
  unfold startBatch
  split
  · simp [Task.weight, maxRetries]
  · simp only [Task.weight, maxBatchRetries]
    split
    · omega
    · omega

theorem settleSingle_weight (device : ModbusDevice) (timestamp : String) (r : ModbusRegister)
    (retryCount : ℕ) (outcome : Outcome) :
    (settleSingle device timestamp r retryCount outcome).1.weight <
      (Task.single r retryCount).weight := by
  have hdone : 0 < (Task.single r retryCount).weight := Nat.succ_pos _
  unfold settleSingle
  split
  · exact hdone
  · split
    · exact hdone
    · split
      · next hretry =>
        have hlt : retryCount < maxRetries := of_decide_eq_true (Bool.and_elim_right hretry)
        simp only [Task.weight]
        omega
      · exact hdone

theorem settleBatch_weight (device : ModbusDevice) (timestamp : String)
    {registers : List ModbusRegister} (several : 2 ≤ registers.length) (retryCount : ℕ)
    (fallback : Bool) (outcome : Outcome) :
    (settleBatch device timestamp registers retryCount fallback outcome).1.weight <
      (Task.batch registers retryCount fallback).weight := by
  unfold settleBatch
  split
  · simp only [Task.weight]
    omega
  · split
    · next hretry =>
      have hlt : retryCount < maxBatchRetries := of_decide_eq_true (Bool.and_elim_right hretry)
      simp only [Task.weight]
      omega
    · split
      · next hfallback =>
        have hl := weight_fallback (registers.take (registers.length/2))
        have hr := weight_fallback (registers.drop (registers.length/2))
        rw [List.length_take] at hl
        rw [List.length_drop] at hr
        rw [weight_join]
        simp only [Task.weight, hfallback, if_true]
        omega
      · next hfallback =>
        have hf := weight_fallback registers
        simp only [Task.weight, hfallback]
        simp only [Bool.false_eq_true, if_false]
        omega

theorem settle_weight {device : ModbusDevice} {timestamp : String} {last : Record} {task : Task}
    {start : ℕ} {registers : List ModbusRegister}
    (h : Covers device timestamp last task start registers) {outcome : Outcome} {path : List Half}
    {s : Settled} (hs : task.settle device timestamp outcome path start = some s) :
    s.task.weight < task.weight := by
  induction h generalizing path s with
  | single r retryCount start =>
    cases path with
    | cons half path => cases hs
    | nil =>
      obtain rfl := Option.some.inj hs
      exact settleSingle_weight device timestamp r retryCount outcome
  | batch registers retryCount fallback start several =>
    cases path with
    | cons half path => cases hs
    | nil =>
      obtain rfl := Option.some.inj hs
      exact settleBatch_weight device timestamp several retryCount fallback outcome
  | halves left right start ls rs hl hr unfinished ihl ihr =>
    cases path with
    | nil => cases hs
    | cons half path =>
      cases half with
      | left =>
        obtain ⟨s',hs',rfl⟩ := Option.map_eq_some_iff.mp hs
        have hlt := ihl hs'
        rw [weight_join]
        simp only [Task.weight]
        omega
      | right =>
        obtain ⟨s',hs',rfl⟩ := Option.map_eq_some_iff.mp hs
        rw [hl.size] at hs'
        have hlt := ihr hs'
        rw [weight_join]
        simp only [Task.weight]
        omega
  | done points start registers reported => cases hs

def restWeight : List (List ModbusRegister) → ℕ
  | [] => 0
  | batch::rest => (startBatch batch).weight+1+restWeight rest

def State.weight (s : State) : ℕ :=
  match s.phase with
  | .polling poll => poll.task.weight+1+restWeight poll.rest
  | .returned _ _ => 0

theorem restWeight_le (batches : List (List ModbusRegister)) (h : ∀ b ∈ batches, b ≠ []) :
    restWeight batches ≤ 8*batches.flatten.length := by
  induction batches with
  | nil => exact le_rfl
  | cons batch rest ih =>
    have hbatch := h batch List.mem_cons_self
    have hpos : 0 < batch.length := List.length_pos_iff.mpr hbatch
    have hw := weight_startBatch hbatch
    have hrest := ih (fun b hb => h b (List.mem_cons_of_mem _ hb))
    rw [List.flatten_cons, List.length_append]
    unfold restWeight
    omega

section Runs
variable (device : ModbusDevice) (now : String) (client : Client)

/-- A poll that has not returned: the batches read so far are reported, the
current one is covered, and the others are to come. -/
structure Polling (poll : Poll) : Prop where
  connected : isConnected client = true
  generation_eq : poll.generation = client.generation
  timestamp_eq : poll.timestamp = now
  nonempty : ∀ batch ∈ poll.rest, batch ≠ []
  split : ∃ past current, pollOrder device = past++(current++poll.rest.flatten) ∧
    Reported device now poll.last 0 past poll.dataPoints ∧
    Covers device now poll.last poll.task past.length current

/-- What a poll returns, by whether the client was connected and whether its
generation is still that of the start. -/
def Returned (generation : ℕ) (last : Record) (points : List DeviceDataPoint) : Prop :=
  if isConnected client = false then
    points = createBadQualityDataPoints device now "DEVICE_OFFLINE"
  else if generation ≠ client.generation then
    ∃ later, points = createBadQualityDataPoints device later "CLIENT_RESET_DURING_POLL"
  else Reported device now last 0 (pollOrder device) points

def Sound (s : State) : Prop :=
  match s.phase with
  | .polling poll => Polling device now client poll
  | .returned points last => Returned device now client s.client.generation last points

variable {device : ModbusDevice} {now : String} {client : Client}

theorem sound_start : Sound device now client (readAllRegisters device now client) := by
  unfold readAllRegisters
  split
  · next hconnected =>
    exact ⟨hconnected,rfl,rfl,fun batch hb => precomputedBatches_nonempty hb,[],[],rfl,.nil,
      .done [] 0 [] .nil⟩
  · next hconnected =>
    show Returned device now client _ _ _
    unfold Returned
    rw [if_pos (by simpa using hconnected)]

theorem settlePoll_step {poll : Poll} (h : Polling device now client poll) {current : Client}
    {path : List Half} {outcome : Outcome} {t : State}
    (hs : settlePoll device current poll path outcome = some t) :
    Sound device now client t ∧ t.weight < poll.task.weight+1+restWeight poll.rest := by
  obtain ⟨s,hsettle,rfl⟩ := Option.map_eq_some_iff.mp hs
  obtain ⟨past,regs,horder,hreported,hcovers⟩ := h.split
  rw [h.timestamp_eq, hreported.length_eq] at hsettle
  obtain ⟨hfirst,-,hcovers'⟩ := settle_covers hcovers hsettle
  have hlt := settle_weight hcovers hsettle
  refine ⟨⟨h.connected,h.generation_eq,h.timestamp_eq,h.nonempty,past,regs,horder,?_,hcovers'⟩,?_⟩
  · apply hreported.congr
    intro i _ hi
    exact record_outside poll.last _ _ (Or.inl (by omega))
  · simp only [State.weight]
    omega

theorem proceedPoll_step {poll : Poll} (h : Polling device now client poll) {current : Client}
    {later : String} {t : State} (hs : proceedPoll device current poll later = some t) :
    Sound device now client t ∧ t.weight < poll.task.weight+1+restWeight poll.rest := by
  obtain ⟨past,regs,horder,hreported,hcovers⟩ := h.split
  unfold proceedPoll at hs
  split at hs
  · next points batch rest htask hrest =>
    obtain rfl := Option.some.inj hs
    have hne := h.nonempty
    rw [htask] at hcovers
    rw [hrest] at horder hne
    cases hcovers with
    | done _ _ _ reported =>
      refine ⟨⟨h.connected,h.generation_eq,h.timestamp_eq,
        fun b hb => hne b (List.mem_cons_of_mem _ hb),past++regs,batch,?_,?_,?_⟩,?_⟩
      · rw [horder, List.flatten_cons, List.append_assoc]
      · exact hreported.append (by rw [Nat.zero_add]; exact reported)
      · exact covers_startBatch _ _ (hne batch List.mem_cons_self)
      · simp only [State.weight, htask, hrest, restWeight, Task.weight]
        omega
  · next points htask hrest =>
    rw [htask] at hcovers
    rw [hrest] at horder
    split at hs
    · next hgen =>
      obtain rfl := Option.some.inj hs
      refine ⟨?_,by show 0 < _; omega⟩
      show Returned device now client current.generation _ _
      unfold Returned
      rw [h.generation_eq] at hgen
      rw [h.connected, if_neg (by decide), if_pos (fun he => hgen he.symm)]
      exact ⟨later,rfl⟩
    · next hgen =>
      obtain rfl := Option.some.inj hs
      refine ⟨?_,by show 0 < _; omega⟩
      show Returned device now client current.generation _ _
      unfold Returned
      rw [h.generation_eq] at hgen
      rw [h.connected, if_neg (by decide), if_neg (fun he => hgen (fun h' => he h'.symm))]
      cases hcovers with
      | done _ _ _ reported =>
        rw [horder, List.flatten_nil, List.append_nil]
        exact hreported.append (by rw [Nat.zero_add]; exact reported)
  · cases hs

/-- A step of the poll keeps what holds of it and leaves less to do; what
happens elsewhere leaves the poll as it is. -/
theorem step_sound {s t : State} {event : Event} (h : Sound device now client s)
    (hs : step device s event = some t) :
    Sound device now client t ∧
      t.weight+(if event.ofPoll then 1 else 0) ≤ s.weight := by
  obtain ⟨current,phase⟩ := s
  cases phase with
  | returned points last => cases event <;> cases hs
  | polling poll =>
    cases event with
    | settle path outcome => exact settlePoll_step h hs
    | proceed later => exact proceedPoll_step h hs
    | elsewhere event =>
      obtain rfl := Option.some.inj hs
      exact ⟨h,le_rfl⟩

theorem run_sound {s t : State} {events : List Event} (h : Sound device now client s)
    (hs : run device s events = some t) :
    Sound device now client t ∧ t.weight+(events.filter Event.ofPoll).length ≤ s.weight := by
  induction events generalizing s with
  | nil =>
    obtain rfl := Option.some.inj hs
    exact ⟨h,le_rfl⟩
  | cons event events ih =>
    obtain ⟨u,hu,ht⟩ := Option.bind_eq_some_iff.mp hs
    obtain ⟨hsound,hweight⟩ := step_sound h hu
    obtain ⟨hsound',hweight'⟩ := ih hsound ht
    refine ⟨hsound',?_⟩
    cases hev : event.ofPoll with
    | false =>
      rw [List.filter_cons_of_neg (by simp [hev])]
      simp only [hev, Bool.false_eq_true, if_false] at hweight
      omega
    | true =>
      rw [List.filter_cons_of_pos hev, List.length_cons]
      simp only [hev, if_true] at hweight
      omega

theorem weight_start_le :
    (readAllRegisters device now client).weight ≤ 8*device.registers.length+1 := by
  unfold readAllRegisters
  split
  · have hrest := restWeight_le (precomputedBatches device)
      (fun batch hb => precomputedBatches_nonempty hb)
    have hlen := (pollOrder_perm device).length_eq
    unfold pollOrder at hlen
    simp only [State.weight, Task.weight]
    omega
  · exact Nat.zero_le _

/-- A poll that has not returned can go on: a request is outstanding that
may settle in any way, or the loop goes on. -/
def GoesOn (device : ModbusDevice) (s : State) : Prop :=
  (∃ path, ∀ outcome, (step device s (.settle path outcome)).isSome) ∨
    ∀ later, (step device s (.proceed later)).isSome

theorem Polling.goesOn {poll : Poll} (h : Polling device now client poll) (current : Client) :
    GoesOn device ⟨current,.polling poll⟩ := by
  obtain ⟨past,regs,-,hreported,hcovers⟩ := h.split
  rcases hcovers.outstanding with ⟨points,htask⟩ | ⟨path,hpath⟩
  · right
    intro later
    show (proceedPoll device current poll later).isSome
    unfold proceedPoll
    rw [htask]
    cases poll.rest with
    | nil =>
      simp only
      split <;> rfl
    | cons batch rest => rfl
  · left
    refine ⟨path,fun outcome => ?_⟩
    show (settlePoll device current poll path outcome).isSome
    unfold settlePoll
    rw [Option.isSome_map, h.timestamp_eq, hreported.length_eq]
    exact hpath outcome

/-- A point without its value and quality. -/
def DeviceDataPoint.label (p : DeviceDataPoint) : String × String := (p.metric,p.unit)

def ModbusRegister.label (r : ModbusRegister) : String × String := (r.name,r.unit)

theorem point_label (r : ModbusRegister) (answer : Answer) :
    (point device now r answer).label = r.label := by
  cases answer <;> rfl

theorem Reported.labels {last : Record} {start : ℕ} {registers : List ModbusRegister}
    {points : List DeviceDataPoint} (h : Reported device now last start registers points) :
    points.map DeviceDataPoint.label = registers.map ModbusRegister.label := by
  apply List.ext_getElem?
  intro i
  rw [List.getElem?_map, List.getElem?_map]
  cases hr : registers[i]? with
  | none =>
    have hi : points.length ≤ i := by
      rw [h.length_eq]
      exact List.getElem?_eq_none_iff.mp hr
    rw [List.getElem?_eq_none hi]
    rfl
  | some r =>
    obtain ⟨answer,-,hpoint⟩ := h.point_of i r hr
    rw [hpoint]
    exact congrArg some (point_label r answer)

theorem createBadQualityDataPoints_labels (device : ModbusDevice) (timestamp qualityCode : String) :
    (createBadQualityDataPoints device timestamp qualityCode).map DeviceDataPoint.label =
      device.registers.map ModbusRegister.label := by
  unfold createBadQualityDataPoints
  rw [List.map_map]
  rfl

theorem Returned.labels_perm {generation : ℕ} {last : Record} {points : List DeviceDataPoint}
    (h : Returned device now client generation last points) :
    (points.map DeviceDataPoint.label).Perm (device.registers.map ModbusRegister.label) := by
  unfold Returned at h
  split at h
  · rw [h, createBadQualityDataPoints_labels]
  · split at h
    · obtain ⟨later,rfl⟩ := h
      rw [createBadQualityDataPoints_labels]
    · rw [h.labels]
      exact (pollOrder_perm device).map _

end Runs

/-- Requests of a task settle one after another. -/
def settleAll (device : ModbusDevice) (timestamp : String) (start : ℕ) :
    Task → Record → List (List Half × Outcome) → Option (Task × Record)
  | task, last, [] => some (task,last)
  | task, last, (path,outcome)::rest =>
    (task.settle device timestamp outcome path start).bind (fun s =>
      settleAll device timestamp start s.task (record last s.first s.answers) rest)

theorem settleAll_covers {device : ModbusDevice} {timestamp : String} {start : ℕ}
    {registers : List ModbusRegister} (settlements : List (List Half × Outcome)) {task : Task}
    {last : Record} {result : Task × Record} (h : Covers device timestamp last task start registers)
    (hs : settleAll device timestamp start task last settlements = some result) :
    Covers device timestamp result.2 result.1 start registers := by
  induction settlements generalizing task last with
  | nil =>
    obtain rfl := Option.some.inj hs
    exact h
  | cons settlement rest ih =>
    obtain ⟨s,hsettle,hrest⟩ := Option.bind_eq_some_iff.mp hs
    exact ih (settle_covers h hsettle).2.2 hrest

/-- However the requests of a fallback settle, it returns one point for each
register of the batch in order. -/
theorem fallback_reported {device : ModbusDevice} {timestamp : String} {start : ℕ}
    {registers : List ModbusRegister} {settlements : List (List Half × Outcome)}
    {points : List DeviceDataPoint} {last final : Record}
    (h : settleAll device timestamp start (readBatchSmartFallback registers) last settlements =
      some (.done points,final)) :
    Reported device timestamp final start registers points := by
  have hcovers := settleAll_covers settlements (covers_fallback last start registers) h
  cases hcovers with
  | done _ _ _ reported => exact reported

/-- A poll takes a bounded number of steps and can always take one until it
returns. It returns one point for each configured register; unless the
client was not connected or was reset meanwhile, the points come in the
order of the batches, and a register is reported good exactly if the last
request for it gave it a value. A fallback keeps the order of its batch. -/
theorem every_register_reported (device : ModbusDevice) (now : String) (client : Client)
    (events : List Event) (s : State)
    (h : run device (readAllRegisters device now client) events = some s) :
    (events.filter Event.ofPoll).length ≤ 8*device.registers.length+1 ∧
    (pollOrder device).Perm device.registers ∧
    (∀ registers settlements last final points,
      settleAll device now 0 (readBatchSmartFallback registers) last settlements =
        some (.done points,final) →
      points.map DeviceDataPoint.label = registers.map ModbusRegister.label) ∧
    match s.phase with
    | .polling _ => GoesOn device s
    | .returned points last =>
      (points.map DeviceDataPoint.label).Perm (device.registers.map ModbusRegister.label) ∧
      (isConnected client = true → s.client.generation = client.generation →
        points.length = (pollOrder device).length ∧
        ∀ i r, (pollOrder device)[i]? = some r → ∃ p answer, points[i]? = some p ∧
          last i = some answer ∧ p.label = r.label ∧
          (∀ value, answer = .ok value → p.quality = .GOOD ∧ p.value = some value) ∧
          ∀ errorMessage, answer = .error errorMessage →
            p.quality = .BAD ∧ p.qualityCode = some (extractQualityCode errorMessage)) := by
  obtain ⟨hsound,hweight⟩ := run_sound sound_start h
  have hstart : (readAllRegisters device now client).weight ≤ 8*device.registers.length+1 :=
    weight_start_le
  refine ⟨by omega,pollOrder_perm device,fun _ _ _ _ _ hall => (fallback_reported hall).labels,?_⟩
  obtain ⟨current,phase⟩ := s
  cases phase with
  | polling poll => exact Polling.goesOn hsound current
  | returned points last =>
    have hreturned : Returned device now client current.generation last points := hsound
    refine ⟨hreturned.labels_perm,fun hconnected hgen => ?_⟩
    unfold Returned at hreturned
    rw [hconnected, if_neg (by decide), if_neg (fun hne => hne hgen)] at hreturned
    refine ⟨hreturned.length_eq,fun i r hr => ?_⟩
    obtain ⟨answer,hlast,hpoint⟩ := hreturned.point_of i r hr
    rw [Nat.zero_add] at hlast
    refine ⟨_,answer,hpoint,hlast,point_label r answer,?_,?_⟩
    · rintro value rfl
      exact ⟨rfl,rfl⟩
    · rintro errorMessage rfl
      exact ⟨rfl,rfl⟩

def coil (address : ℕ) (name : String) : ModbusRegister where
  address := address
  functionCode := .readCoils
  dataType := .boolean
  count := 1
  byteOrder := none
  endianness := none
  scale := 1
  offset := 0
  encoding := none
  noBatch := false
  count_pos := Nat.one_pos
  name := name
  unit := ""

def coils : ModbusDevice := ⟨"plc","modbus:tcp:plc:502:slave:1",2,[coil 1 "run",coil 0 "alarm"]⟩

def openClient : Client := { Client.fresh with isOpen := fun _ => true }

def halved : List Event :=
  [.proceed "",.settle [] (.failed "Exception 2"),.settle [] (.failed "Exception 2"),
    .settle [.right] (.data (.bits [true])),.settle [.left] (.failed "Exception 2"),
    .proceed "later"]

theorem coils_reported : ∃ s last, run coils (readAllRegisters coils "now" openClient) halved =
      some s ∧
    s.phase = .returned [createBadDataPoint coils "now" (coil 0 "alarm") "Exception 2",
      createGoodDataPoint coils "now" (coil 1 "run") (.bool true)] last ∧
    (halved.filter Event.ofPoll).length ≤ 17 := by
  obtain ⟨s,hs⟩ : ∃ s, run coils (readAllRegisters coils "now" openClient) halved = some s :=
    ⟨_,rfl⟩
  have hrun := every_register_reported coils "now" openClient halved s hs
  obtain rfl := Option.some.inj hs
  exact ⟨_,_,rfl,rfl,hrun.1⟩

end Iotistica.ModbusPolls
