import Iotistica.ModbusBatchReads
import Iotistica.PollReports

/-!
# Values of a poll

On a device that answers every request, a task promises values: those a batch
reports, with the fallback if one of its registers cannot be parsed. Settling
a request keeps the promise, whatever is retried and in whichever order the
halves come back, so that the poll returns the values of its batches.
-/

set_option autoImplicit false

namespace Iotistica.ModbusPolls
open Iotistica.Modbus
open Iotistica.ModbusLock (Client)

def values (points : List DeviceDataPoint) : List (Option Value) :=
  points.map DeviceDataPoint.value

def named (registers : List ModbusRegister) : List Register :=
  registers.map ModbusRegister.toRegister

def results (reports : List (Register × Except ReadError Value)) : List (Option Value) :=
  reports.map (fun p => p.2.toOption)

def reported (dev : Device) (batch : List ModbusRegister) : List (Option Value) :=
  results (reportBatch dev (named batch))

def reportRequest (dev : Device) (registers : List Register) :
    List (Register × Except ReadError Value) :=
  match Modbus.readRegisterBatch dev registers with
  | .ok values => values.map (fun p => (p.1,.ok p.2))
  | .error _ =>
    Modbus.readBatchSmartFallback dev (registers.take (registers.length/2))++
      Modbus.readBatchSmartFallback dev (registers.drop (registers.length/2))

def promised (dev : Device) : Task → List (Option Value)
  | .single r _ => [(Modbus.readRegister dev r.toRegister).toOption]
  | .batch registers _ _ => results (reportRequest dev (named registers))
  | .halves left right => promised dev left++promised dev right
  | .done points => values points

def Truthful (dev : Device) (code : FunctionCode) (address count : ℕ) (outcome : Outcome) : Prop :=
  ∀ raw, readBatchRaw dev code address count = .ok raw → outcome = .data raw

def Answers (dev : Device) (outcome : Outcome) : Task → List Half → Prop
  | .single r _, [] => Truthful dev r.functionCode r.address r.count outcome
  | .batch (first::others) _ _, [] =>
    Truthful dev first.functionCode first.address
      (batchEnd first.toRegister (named others)-first.address) outcome
  | .halves left _, .left::path => Answers dev outcome left path
  | .halves _ right, .right::path => Answers dev outcome right path
  | _, _ => True

variable {dev : Device}

theorem results_append (xs ys : List (Register × Except ReadError Value)) :
    results (xs++ys) = results xs++results ys := List.map_append

theorem results_ok (pairs : List (Register × Value)) :
    results (pairs.map (fun p : Register × Value => (p.1,Except.ok p.2))) =
      (pairs.map Prod.snd).map some := by
  simp [results, Except.toOption, Function.comp_def]

theorem readBatchSmartFallback_failed {registers : List Register} {e : ReadError}
    (h : Modbus.readRegisterBatch dev registers = .error e) :
    Modbus.readBatchSmartFallback dev registers =
      Modbus.readBatchSmartFallback dev (registers.take (registers.length/2))++
        Modbus.readBatchSmartFallback dev (registers.drop (registers.length/2)) := by
  match registers, h with
  | [r], _ =>
    have hhalf : [r].length/2 = 0 := Nat.div_eq_of_lt Nat.one_lt_two
    rw [hhalf, List.take_zero, List.drop_zero, Modbus.readBatchSmartFallback.eq_1, List.nil_append]
  | r::q::rest, h =>
    rw [Modbus.readBatchSmartFallback, h]

theorem reportBatch_eq_request (r q : Register) (rest : List Register) :
    reportBatch dev (r::q::rest) = reportRequest dev (r::q::rest) := by
  unfold reportBatch reportRequest
  cases hdev : Modbus.readRegisterBatch dev (r::q::rest) with
  | ok pairs => simp only [hdev]
  | error e =>
    simp only [hdev]
    exact readBatchSmartFallback_failed hdev

theorem promised_fallback (registers : List ModbusRegister) :
    promised dev (readBatchSmartFallback registers) =
      results (Modbus.readBatchSmartFallback dev (named registers)) := by
  match registers with
  | [] => rw [named, List.map_nil, Modbus.readBatchSmartFallback]; rfl
  | [r] => rw [named, List.map_singleton, Modbus.readBatchSmartFallback]; rfl
  | r::q::rest =>
    rw [named, List.map_cons, List.map_cons, Modbus.readBatchSmartFallback]
    rfl

theorem promised_startBatch (batch : List ModbusRegister) (h : batch ≠ []) :
    promised dev (startBatch batch) = reported dev batch := by
  match batch, h with
  | [r], _ => rfl
  | r::q::rest, _ => exact (congrArg results (reportBatch_eq_request _ _ _)).symm

theorem promised_join (left right : Task) :
    promised dev (join left right) = promised dev left++promised dev right := by
  unfold join
  split
  · exact List.map_append
  · rfl

theorem readRegister_truthful {r : ModbusRegister} {outcome : Outcome}
    (h : Truthful dev r.functionCode r.address r.count outcome) :
    (readRegister r outcome).toOption = (Modbus.readRegister dev r.toRegister).toOption := by
  unfold Modbus.readRegister
  cases hraw : readBatchRaw dev r.functionCode r.address r.count with
  | ok raw =>
    obtain rfl := h raw hraw
    have hcode : isReadCode r.functionCode = true := by
      revert hraw
      cases r.functionCode <;> simp [readBatchRaw, isReadCode, isBitCode, isWordCode]
    simp only [readRegister, hcode, if_true, Except.bind]
    cases parseRaw r.toRegister raw <;> rfl
  | error e =>
    have hcode : isReadCode r.functionCode = false := by
      revert hraw
      cases r.functionCode <;> simp [readBatchRaw, isReadCode, isBitCode, isWordCode]
    cases outcome with
    | failed errorMessage => rfl
    | data raw =>
      simp only [readRegister, hcode, Bool.false_eq_true, if_false]
      rfl

theorem mapM_toOption {α β γ ε δ : Type} {f : α → Except ε β} {g : α → Except δ γ} {k : γ → β}
    (h : ∀ x, (f x).toOption = (g x).toOption.map k) (xs : List α) :
    (xs.mapM f).toOption = (xs.mapM g).toOption.map (List.map k) := by
  induction xs with
  | nil => rfl
  | cons x xs ih =>
    have hx := h x
    rw [List.mapM_cons, List.mapM_cons]
    cases hf : f x with
    | error e =>
      cases hg : g x with
      | error d => rfl
      | ok z => rw [hf, hg] at hx; cases hx
    | ok y =>
      cases hg : g x with
      | error d => rw [hf, hg] at hx; cases hx
      | ok z =>
        rw [hf, hg] at hx
        obtain rfl := Option.some.inj hx
        cases hfs : xs.mapM f with
        | error e =>
          cases hgs : xs.mapM g with
          | error d => rfl
          | ok zs => rw [hfs, hgs] at ih; cases ih
        | ok ys =>
          cases hgs : xs.mapM g with
          | error d => rw [hfs, hgs] at ih; cases ih
          | ok zs =>
            rw [hfs, hgs] at ih
            obtain rfl := Option.some.inj ih
            rfl

theorem readRegisterBatch_truthful {first : ModbusRegister} {others : List ModbusRegister}
    {outcome : Outcome} (h : Truthful dev first.functionCode first.address
      (batchEnd first.toRegister (named others)-first.address) outcome) :
    (readRegisterBatch (first::others) outcome).toOption =
      (Modbus.readRegisterBatch dev (named (first::others))).toOption.map (List.map Prod.snd) := by
  change _ = ((readBatchRaw dev first.functionCode first.address
    (batchEnd first.toRegister (named others)-first.address)).bind (fun raw =>
      (named (first::others)).mapM (fun r =>
        (parseRaw r (registerData first.toRegister raw r)).map (fun v => (r,v))))).toOption.map _
  cases hraw : readBatchRaw dev first.functionCode first.address
      (batchEnd first.toRegister (named others)-first.address) with
  | ok raw =>
    obtain rfl := h raw hraw
    have hcode : isReadCode first.functionCode = true := by
      revert hraw
      cases first.functionCode <;> simp [readBatchRaw, isReadCode, isBitCode, isWordCode]
    simp only [readRegisterBatch, hcode, if_true, Except.bind]
    rw [named, List.mapM_map]
    refine mapM_toOption (fun r => ?_) _
    rw [Function.comp_apply]
    cases parseRaw r.toRegister (registerData first.toRegister raw r.toRegister) <;> rfl
  | error e =>
    have hcode : isReadCode first.functionCode = false := by
      revert hraw
      cases first.functionCode <;> simp [readBatchRaw, isReadCode, isBitCode, isWordCode]
    cases outcome with
    | failed errorMessage => rfl
    | data raw =>
      simp only [readRegisterBatch, hcode, Bool.false_eq_true, if_false]
      rfl

section
variable (device : ModbusDevice) (timestamp : String)

theorem promised_settleSingle {r : ModbusRegister} {outcome : Outcome} (retryCount : ℕ)
    (h : Truthful dev r.functionCode r.address r.count outcome) :
    promised dev (settleSingle device timestamp r retryCount outcome).1 =
      promised dev (.single r retryCount) := by
  have hread := readRegister_truthful h
  have hpromise : promised dev (.single r retryCount) = [(readRegister r outcome).toOption] :=
    congrArg (fun o => [o]) hread.symm
  rw [hpromise]
  unfold settleSingle
  cases hanswer : readRegister r outcome with
  | ok value => rfl
  | error errorMessage =>
    dsimp only
    split
    · rfl
    · split
      · rw [hanswer] at hpromise
        exact hpromise
      · rfl

theorem promised_settleBatch {registers : List ModbusRegister} {outcome : Outcome}
    (retryCount : ℕ) (fallback : Bool)
    (h : Answers dev outcome (.batch registers retryCount fallback) []) :
    promised dev (settleBatch device timestamp registers retryCount fallback outcome).1 =
      promised dev (.batch registers retryCount fallback) := by
  have hread : (readRegisterBatch registers outcome).toOption =
      (Modbus.readRegisterBatch dev (named registers)).toOption.map (List.map Prod.snd) := by
    cases registers with
    | nil => rfl
    | cons first others => exact readRegisterBatch_truthful h
  change _ = results (reportRequest dev (named registers))
  rw [reportRequest]
  unfold settleBatch
  cases hanswer : readRegisterBatch registers outcome with
  | ok given =>
    cases hdev : Modbus.readRegisterBatch dev (named registers) with
    | error e =>
      rw [hanswer, hdev] at hread
      cases hread
    | ok pairs =>
      rw [hanswer, hdev] at hread
      obtain rfl := Option.some.inj hread
      have hlength := readRegisterBatch_length hanswer
      rw [results_ok]
      change values (List.zipWith _ _ _) = _
      rw [values, List.map_zipWith]
      refine List.ext_getElem (by simpa using hlength.le) fun i hi hi' => ?_
      simp only [List.getElem_zipWith, List.getElem_map]
      rfl
  | error errorMessage =>
    cases hdev : Modbus.readRegisterBatch dev (named registers) with
    | ok pairs =>
      rw [hanswer, hdev] at hread
      cases hread
    | error e =>
      dsimp only
      split
      · change results (reportRequest dev (named registers)) = _
        rw [reportRequest, hdev]
      · split
        · rw [promised_join, promised_fallback, promised_fallback, results_append, named, named,
            List.map_take, List.map_drop, named, List.length_map]
        · rw [promised_fallback, readBatchSmartFallback_failed hdev]

theorem promised_settle {task : Task} {outcome : Outcome} {path : List Half} {start : ℕ}
    {s : Settled} (hs : task.settle device timestamp outcome path start = some s)
    (h : Answers dev outcome task path) : promised dev s.task = promised dev task := by
  induction task generalizing path start s with
  | single r retryCount =>
    cases path with
    | cons half path => cases hs
    | nil =>
      obtain rfl := Option.some.inj hs
      exact promised_settleSingle device timestamp retryCount h
  | batch registers retryCount fallback =>
    cases path with
    | cons half path => cases hs
    | nil =>
      obtain rfl := Option.some.inj hs
      exact promised_settleBatch device timestamp retryCount fallback h
  | halves left right ihl ihr =>
    cases path with
    | nil => cases hs
    | cons half path =>
      cases half with
      | left =>
        obtain ⟨t,ht,rfl⟩ := Option.map_eq_some_iff.mp hs
        rw [promised_join, ihl ht h]
        rfl
      | right =>
        obtain ⟨t,ht,rfl⟩ := Option.map_eq_some_iff.mp hs
        rw [promised_join, ihr ht h]
        rfl
  | done points => cases hs

end

def Answered (dev : Device) (device : ModbusDevice) : State → List Event → Prop
  | _, [] => True
  | s, event::events =>
    (∀ poll path outcome, s.phase = .polling poll → event = .settle path outcome →
      Answers dev outcome poll.task path) ∧
      ∀ t, step device s event = some t → Answered dev device t events

def Promising (dev : Device) (device : ModbusDevice) (s : State) : Prop :=
  match s.phase with
  | .polling poll =>
    (∀ batch ∈ poll.rest, batch ≠ []) ∧
      values poll.dataPoints++(promised dev poll.task++poll.rest.flatMap (reported dev)) =
        (precomputedBatches device).flatMap (reported dev)
  | .returned points _ => (∀ p ∈ points, p.value = none) ∨
    values points = (precomputedBatches device).flatMap (reported dev)

theorem createBadQualityDataPoints_value {device : ModbusDevice} {timestamp qualityCode : String}
    {p : DeviceDataPoint} (h : p ∈ createBadQualityDataPoints device timestamp qualityCode) :
    p.value = none := by
  obtain ⟨r,-,rfl⟩ := List.mem_map.mp h
  rfl

theorem promising_start (device : ModbusDevice) (now : String) (client : Client) :
    Promising dev device (readAllRegisters device now client) := by
  unfold readAllRegisters
  split
  · exact ⟨fun batch hb => precomputedBatches_nonempty hb,rfl⟩
  · exact Or.inl fun p hp => createBadQualityDataPoints_value hp

theorem step_promising {device : ModbusDevice} {s t : State} {event : Event}
    (h : Promising dev device s)
    (hanswer : ∀ poll path outcome, s.phase = .polling poll → event = .settle path outcome →
      Answers dev outcome poll.task path)
    (hs : step device s event = some t) : Promising dev device t := by
  obtain ⟨client,phase⟩ := s
  cases phase with
  | returned points last => cases event <;> cases hs
  | polling poll =>
    cases event with
    | settle path outcome =>
      obtain ⟨settled,hsettle,rfl⟩ := Option.map_eq_some_iff.mp hs
      have hpromise := promised_settle device _ hsettle (hanswer poll path outcome rfl rfl)
      refine ⟨h.1,?_⟩
      dsimp only
      rw [hpromise]
      exact h.2
    | proceed now =>
      obtain ⟨hne,hsame⟩ := h
      change proceedPoll device client poll now = some t at hs
      unfold proceedPoll at hs
      split at hs
      · next points batch rest htask hrest =>
        obtain rfl := Option.some.inj hs
        rw [hrest] at hne
        refine ⟨fun b hb => hne b (List.mem_cons_of_mem _ hb),?_⟩
        rw [htask, hrest] at hsame
        dsimp only
        rw [promised_startBatch batch (hne batch List.mem_cons_self), values, List.map_append,
          List.append_assoc]
        exact hsame
      · next points htask hrest =>
        rw [htask, hrest] at hsame
        split at hs
        · obtain rfl := Option.some.inj hs
          exact Or.inl fun p hp => createBadQualityDataPoints_value hp
        · obtain rfl := Option.some.inj hs
          refine Or.inr ?_
          rw [values, List.map_append]
          exact (congrArg (values poll.dataPoints++·) (List.append_nil _).symm).trans hsame
      · cases hs
    | elsewhere event =>
      obtain rfl := Option.some.inj hs
      exact h

theorem run_promising {device : ModbusDevice} {s t : State} {events : List Event}
    (h : Promising dev device s) (hanswered : Answered dev device s events)
    (hs : run device s events = some t) : Promising dev device t := by
  induction events generalizing s with
  | nil =>
    obtain rfl := Option.some.inj hs
    exact h
  | cons event events ih =>
    obtain ⟨u,hu,hrun⟩ := Option.bind_eq_some_iff.mp hs
    exact ih (step_promising h hanswered.1 hu) (hanswered.2 u hu) hrun

theorem precomputedBatches_asked {device : ModbusDevice} {batch : List ModbusRegister}
    (h : batch ∈ precomputedBatches device) : Asked (named batch) := by
  obtain ⟨code,-,hbatch⟩ := List.mem_flatMap.mp h
  have hmem := List.mem_map_of_mem (f := List.map ModbusRegister.toRegister) hbatch
  rw [map_optimizeNamed] at hmem
  have hb : named batch ∈ batchesOf device.gapTolerance (named device.registers) code := by
    rw [batchesOf, named, List.filter_map]
    exact hmem
  exact asked_of_batch hb

/-- A poll of a device that answers every request returns, if its requests
are covered, for each register in the order of the poll the value that it has
when it is read alone, or a poll that tells of no value at all because the
client was offline or was reset. -/
theorem polled_values {device : ModbusDevice} {now : String} {client : Client}
    {events : List Event} {t : State} {points : List DeviceDataPoint} {last : Record}
    (hcov : ∀ batch ∈ precomputedBatches device, ∀ part ∈ requests (named batch), Covered part)
    (hanswered : Answered dev device (readAllRegisters device now client) events)
    (hs : run device (readAllRegisters device now client) events = some t)
    (hreturned : t.phase = .returned points last) :
    (∀ p ∈ points, p.value = none) ∨ values points =
      (pollOrder device).map (fun r => (Modbus.readRegister dev r.toRegister).toOption) := by
  have hpromise := run_promising (promising_start device now client) hanswered hs
  unfold Promising at hpromise
  rw [hreturned] at hpromise
  refine hpromise.imp_right fun hvalues => ?_
  have hbatch : ∀ batch ∈ precomputedBatches device, reported dev batch =
      batch.map (fun r => (Modbus.readRegister dev r.toRegister).toOption) := by
    intro batch hb
    rw [reported, reportBatch_eq dev (precomputedBatches_asked hb) (hcov batch hb)]
    simp [results, named, Function.comp_def]
  rw [hvalues, pollOrder, List.map_flatten, List.flatMap_def]
  exact congrArg List.flatten (List.map_congr_left hbatch)

end Iotistica.ModbusPolls
