import Iotistica.ModbusBatches

/-!
# Batched values against single reads

The value of a register is a function of a few leading words of its data.
In a batch these words are the register's own exactly when they lie before
the end of the batch's last register, and then the batch reports the value
the register has alone.
-/

set_option autoImplicit false

namespace Iotistica.Modbus

def usedCount (r : Register) : ℕ :=
  match width r.dataType with
  | some n => n/2
  | none => r.count

def usedWords (r : Register) (data : List UInt16) : List ℕ := (arranged r data).take (usedCount r)

theorem take_buffer (r : Register) (words : List ℕ) (k : ℕ) :
    (buffer r words).take (2*k) = buffer r (words.take k) := by
  have htwo : ∀ w, ∃ a b, wordBytes (bufferOrder r) w = [a,b] := by
    intro w
    unfold wordBytes
    split <;> exact ⟨_,_,rfl⟩
  induction words generalizing k with
  | nil => simp [buffer]
  | cons w words ih =>
    cases k with
    | zero => simp [buffer]
    | succ k =>
      obtain ⟨a,b,hw⟩ := htwo w
      have hk : 2*(k+1) = 2*k+1+1 := by omega
      have ih' : List.take (2*k) (List.flatMap (wordBytes (bufferOrder r)) words) =
          List.flatMap (wordBytes (bufferOrder r)) (List.take k words) := ih k
      rw [hk]
      simp [buffer, hw, ih']

theorem length_buffer (r : Register) (words : List ℕ) :
    (buffer r words).length = 2*words.length := by
  induction words with
  | nil => rfl
  | cons w words ih =>
    have hw : (wordBytes (bufferOrder r) w).length = 2 := by
      unfold wordBytes
      split <;> rfl
    have hb : buffer r (w::words) = wordBytes (bufferOrder r) w++buffer r words := rfl
    rw [hb, List.length_append, hw, ih, List.length_cons]
    omega

theorem length_arranged (r : Register) (data : List UInt16) :
    (arranged r data).length = r.count := by
  simp [arranged]

theorem width_even (t : DataType) {n : ℕ} (h : width t = some n) : n = 2*(n/2) := by
  cases t <;> simp [width] at h <;> omega

theorem parseRegisterData_congr {r : Register} {data data' : List UInt16}
    (h : usedWords r data = usedWords r data') :
    parseRegisterData r data = parseRegisterData r data' := by
  unfold parseRegisterData parseBuffer
  unfold usedWords usedCount at h
  cases hw : width r.dataType with
  | some n =>
    rw [hw] at h
    have htake : (buffer r (arranged r data)).take n = (buffer r (arranged r data')).take n := by
      rw [width_even r.dataType hw, take_buffer, take_buffer]
      exact congrArg (buffer r) h
    simp only [length_buffer, length_arranged, htake]
  | none =>
    rw [hw] at h
    simp only at h
    have hall : ∀ d, (arranged r d).take r.count = arranged r d := by
      intro d
      rw [List.take_of_length_le]
      rw [length_arranged]
    rw [hall, hall] at h
    simp only [h]

theorem source_lt_wordReach (r : Register) {i : ℕ} (hi : i < usedCount r) (hc : i < r.count) :
    source (bufferOrder r) r.count i < wordReach r := by
  unfold usedCount at hi
  unfold wordReach source
  cases hw : width r.dataType with
  | some n =>
    rw [hw] at hi
    cases bufferOrder r <;> simp only at hi ⊢ <;> omega
  | none => cases bufferOrder r <;> simp only <;> omega

theorem usedWords_congr {r : Register} {data data' : List UInt16}
    (h : ∀ k < wordReach r, word data k = word data' k) : usedWords r data = usedWords r data' := by
  apply List.ext_getElem?
  intro i
  unfold usedWords arranged
  rw [List.getElem?_take, List.getElem?_take, List.getElem?_map, List.getElem?_map]
  by_cases hi : i < usedCount r
  · rw [if_pos hi, if_pos hi]
    by_cases hc : i < r.count
    · rw [List.getElem?_range hc]
      simp only [Option.map_some, h _ (source_lt_wordReach r hi hc)]
    · rw [List.getElem?_eq_none (by simpa using hc)]
      rfl
  · rw [if_neg hi, if_neg hi]

theorem exists_source (r : Register) (hle : wordReach r ≤ r.count) (hu : 0 < usedCount r) :
    ∃ i, i < usedCount r ∧ i < r.count ∧ source (bufferOrder r) r.count i = wordReach r-1 := by
  have hpos := r.count_pos
  unfold usedCount wordReach source at *
  cases hw : width r.dataType with
  | some n =>
    simp only [hw] at *
    cases ho : bufferOrder r <;> simp only [ho] at *
    · exact ⟨n/2-1,by omega,by omega,rfl⟩
    · exact ⟨0,by omega,hpos,by omega⟩
    · exact ⟨n/2-1,by omega,by omega,rfl⟩
    · exact ⟨0,by omega,hpos,by omega⟩
  | none =>
    simp only [hw] at *
    cases ho : bufferOrder r <;> simp only [ho] at *
    · exact ⟨r.count-1,by omega,by omega,rfl⟩
    · exact ⟨0,hpos,hpos,by omega⟩
    · exact ⟨r.count-1,by omega,by omega,rfl⟩
    · exact ⟨0,hpos,hpos,by omega⟩

theorem isBitCode_of_isWordCode {code : FunctionCode} (h : isWordCode code = true) :
    isBitCode code = false := by
  revert h
  cases code <;> decide

theorem reach_of_parses {r : Register} (hp : parses r = true)
    (hcode : isWordCode r.functionCode = true) :
    0 < wordReach r ∧ wordReach r ≤ r.count ∧ 0 < usedCount r := by
  have hpos := r.count_pos
  unfold parses at hp
  rw [isBitCode_of_isWordCode hcode, hcode] at hp
  unfold wordReach usedCount
  cases hw : width r.dataType with
  | none => cases bufferOrder r <;> exact ⟨hpos,le_rfl,hpos⟩
  | some n =>
    have hn : 2 ≤ n := by
      revert hw
      cases r.dataType <;> simp [width] <;> omega
    have hle : n ≤ 2*r.count := by simpa [hw] using hp
    cases bufferOrder r <;> simp only <;> omega

/-- The words of a register cut out of a batch that ends at `last`. -/
def wordsInBatch (memory : ℕ → UInt16) (start last : ℕ) (r : Register) : List UInt16 :=
  slice (fetch memory start (last-start)) (r.address-start) (span r)

def wordsAlone (memory : ℕ → UInt16) (r : Register) : List UInt16 :=
  fetch memory r.address r.count

theorem word_inBatch (memory : ℕ → UInt16) {start last : ℕ} {r : Register} (k : ℕ)
    (hs : start ≤ r.address) :
    word (wordsInBatch memory start last r) k =
      if k < r.count ∧ r.address+k < last then (memory (r.address+k)).toNat else 0 := by
  unfold word wordsInBatch
  rw [getElem?_slice_fetch memory last (span r) k hs, span_eq]
  split <;> rfl

theorem word_alone (memory : ℕ → UInt16) (r : Register) (k : ℕ) :
    word (wordsAlone memory r) k = if k < r.count then (memory (r.address+k)).toNat else 0 := by
  unfold word wordsAlone
  rw [getElem?_fetch]
  split <;> rfl

/-- A batch gives a register the words its value depends on, whatever the
device holds, exactly when they lie before the end of the batch. -/
theorem usedWords_inBatch_iff {start last : ℕ} {r : Register} (hs : start ≤ r.address)
    (hp : parses r = true) (hcode : isWordCode r.functionCode = true) :
    (∀ memory, usedWords r (wordsInBatch memory start last r) = usedWords r (wordsAlone memory r)) ↔
      r.address+wordReach r ≤ last := by
  constructor
  · intro h
    by_contra hlt
    obtain ⟨hr,hle,hu⟩ := reach_of_parses hp hcode
    obtain ⟨i,hi,hc,hsrc⟩ := exists_source r hle hu
    have hall := h (fun a => if a = r.address+(wordReach r-1) then 1 else 0)
    have hget := congrArg (fun ws : List ℕ => ws[i]?) hall
    unfold usedWords arranged at hget
    simp only [List.getElem?_take, List.getElem?_map, hi, if_true, List.getElem?_range hc,
      Option.map_some, hsrc, word_inBatch _ _ hs, word_alone] at hget
    rw [if_neg (by omega), if_pos (by omega)] at hget
    simp at hget
  · intro hlast memory
    apply usedWords_congr
    intro k hk
    rw [word_inBatch memory k hs, word_alone]
    by_cases hc : k < r.count
    · rw [if_pos ⟨hc,by omega⟩, if_pos hc]
    · rw [if_neg (fun h => hc h.1), if_neg hc]

theorem parses_of_parseRegisterData {r : Register} {data : List UInt16} {v : Value}
    (hcode : isWordCode r.functionCode = true) (h : parseRegisterData r data = .ok v) :
    parses r = true := by
  unfold parses
  rw [isBitCode_of_isWordCode hcode, hcode]
  unfold parseRegisterData parseBuffer at h
  rw [length_buffer, length_arranged] at h
  cases hw : width r.dataType with
  | some n =>
    simp only [hw] at h ⊢
    split at h
    · cases h
    · rename_i hn
      simpa using hn
  | none =>
    simp only [hw] at h ⊢
    split at h
    · rename_i hs
      simpa using hs
    · cases h

theorem parses_of_parseCoilData {r : Register} {data : List Bool} {v : Value}
    (hcode : isBitCode r.functionCode = true) (h : parseCoilData r data = .ok v) :
    parses r = true := by
  unfold parses
  rw [hcode]
  unfold parseCoilData at h
  split at h
  · rename_i hs
    simpa using hs
  · cases h

theorem mapM_ok {α β γ ε : Type} {f : α → Except ε β} {g : α → γ} {k : β → γ} {xs : List α}
    {ys : List β} (h : xs.mapM f = .ok ys) (hg : ∀ x ∈ xs, ∀ y, f x = .ok y → k y = g x) :
    (∀ x ∈ xs, ∃ y, f x = .ok y) ∧ ys.map k = xs.map g := by
  induction xs generalizing ys with
  | nil =>
    obtain rfl : ys = [] := by cases h; rfl
    exact ⟨fun x hx => (List.not_mem_nil hx).elim,rfl⟩
  | cons x xs ih =>
    rw [List.mapM_cons] at h
    cases hx : f x with
    | error e =>
      rw [hx] at h
      cases h
    | ok y =>
      cases hxs : xs.mapM f with
      | error e =>
        rw [hx, hxs] at h
        cases h
      | ok zs =>
        rw [hx, hxs] at h
        obtain rfl : ys = y::zs := by cases h; rfl
        obtain ⟨hall,hmap⟩ := ih hxs (fun z hz => hg z (List.mem_cons_of_mem x hz))
        refine ⟨List.forall_mem_cons.mpr ⟨⟨y,hx⟩,hall⟩,?_⟩
        rw [List.map_cons, List.map_cons, hmap, hg x List.mem_cons_self y hx]

theorem mapM_isOk {α β ε : Type} {f : α → Except ε β} {xs : List α}
    (h : ∀ x ∈ xs, ∃ y, f x = .ok y) : ∃ ys, xs.mapM f = .ok ys := by
  induction xs with
  | nil => exact ⟨[],rfl⟩
  | cons x xs ih =>
    obtain ⟨y,hy⟩ := h x List.mem_cons_self
    obtain ⟨ys,hys⟩ := ih (fun z hz => h z (List.mem_cons_of_mem x hz))
    exact ⟨y::ys,by rw [List.mapM_cons, hy, hys]; rfl⟩

theorem readBatchRaw_bits {code : FunctionCode} (h : isBitCode code = true) (dev : Device)
    (address count : ℕ) :
    readBatchRaw dev code address count = .ok (.bits (fetch (dev.bits code) address count)) := by
  revert h
  cases code <;> simp [isBitCode, readBatchRaw]

theorem readBatchRaw_words {code : FunctionCode} (h : isWordCode code = true) (dev : Device)
    (address count : ℕ) :
    readBatchRaw dev code address count = .ok (.words (fetch (dev.words code) address count)) := by
  revert h
  cases code <;> simp [isWordCode, readBatchRaw]

theorem readBatchRaw_error {code : FunctionCode} (h : isBitCode code = false)
    (h' : isWordCode code = false) (dev : Device) (address count : ℕ) :
    readBatchRaw dev code address count = .error .unsupportedFunctionCode := by
  revert h h'
  cases code <;> simp [isBitCode, isWordCode, readBatchRaw]

/-- Cut out of the response of its batch, a register parses to the value it
has alone, or both fail alike. -/
theorem parse_inBatch (dev : Device) {first r : Register} {last : ℕ} {raw : RawData}
    (hs : first.address ≤ r.address) (hcode : first.functionCode = r.functionCode)
    (hraw : readBatchRaw dev first.functionCode first.address (last-first.address) = .ok raw)
    (hcov : r.address+reach r ≤ last) :
    parseRaw r (registerData first raw r) = readRegister dev r := by
  unfold readRegister
  unfold reach at hcov
  rw [hcode] at hraw
  by_cases hbit : isBitCode r.functionCode = true
  · rw [readBatchRaw_bits hbit] at hraw ⊢
    rw [if_pos hbit] at hcov
    obtain rfl := Except.ok.inj hraw
    show parseCoilData r (slice _ _ _) = parseCoilData r _
    have hpos := r.count_pos
    have hhead : (slice (fetch (dev.bits r.functionCode) first.address (last-first.address))
          (r.address-first.address) (span r))[0]? =
        (fetch (dev.bits r.functionCode) r.address r.count)[0]? := by
      rw [getElem?_slice_fetch _ last (span r) 0 hs, getElem?_fetch, span_eq,
        if_pos ⟨hpos,by omega⟩, if_pos hpos]
    unfold parseCoilData
    rw [hhead]
  · have hbit' : isBitCode r.functionCode = false := by simpa using hbit
    rw [hbit'] at hcov
    by_cases hword : isWordCode r.functionCode = true
    · rw [readBatchRaw_words hword] at hraw ⊢
      obtain rfl := Except.ok.inj hraw
      show parseRegisterData r (wordsInBatch (dev.words r.functionCode) first.address last r) =
        parseRegisterData r (wordsAlone (dev.words r.functionCode) r)
      apply parseRegisterData_congr
      apply usedWords_congr
      intro k hk
      rw [word_inBatch _ k hs, word_alone]
      have hk' : r.address+k < last := by
        have hlast : r.address+wordReach r ≤ last := hcov
        omega
      by_cases hc : k < r.count
      · rw [if_pos ⟨hc,hk'⟩, if_pos hc]
      · rw [if_neg (fun h => hc h.1), if_neg hc]
    · rw [readBatchRaw_error hbit' (by simpa using hword)] at hraw
      cases hraw

theorem parses_of_parseRaw (dev : Device) {first r : Register} {count : ℕ} {raw : RawData}
    {v : Value} (hcode : first.functionCode = r.functionCode)
    (hraw : readBatchRaw dev first.functionCode first.address count = .ok raw)
    (h : parseRaw r (registerData first raw r) = .ok v) : parses r = true := by
  rw [hcode] at hraw
  by_cases hbit : isBitCode r.functionCode = true
  · rw [readBatchRaw_bits hbit] at hraw
    obtain rfl := Except.ok.inj hraw
    exact parses_of_parseCoilData hbit h
  · by_cases hword : isWordCode r.functionCode = true
    · rw [readBatchRaw_words hword] at hraw
      obtain rfl := Except.ok.inj hraw
      exact parses_of_parseRegisterData hword h
    · rw [readBatchRaw_error (by simpa using hbit) (by simpa using hword)] at hraw
      cases hraw

theorem parseRaw_of_parses {dev : Device} {first r : Register} {count : ℕ} {raw : RawData}
    (hcode : first.functionCode = r.functionCode)
    (hraw : readBatchRaw dev first.functionCode first.address count = .ok raw)
    (h : parses r = true) : ∃ v, parseRaw r (registerData first raw r) = .ok v := by
  rw [hcode] at hraw
  unfold parses at h
  by_cases hbit : isBitCode r.functionCode = true
  · rw [readBatchRaw_bits hbit] at hraw
    obtain rfl := Except.ok.inj hraw
    rw [if_pos hbit] at h
    exact ⟨_,if_pos (of_decide_eq_true h)⟩
  · rw [if_neg hbit] at h
    by_cases hword : isWordCode r.functionCode = true
    · rw [readBatchRaw_words hword] at hraw
      obtain rfl := Except.ok.inj hraw
      rw [if_pos hword] at h
      change ∃ v, parseRegisterData r _ = .ok v
      unfold parseRegisterData parseBuffer
      rw [length_buffer, length_arranged]
      cases hw : width r.dataType with
      | some n =>
        rw [hw] at h
        exact ⟨_,if_neg (Nat.not_lt.mpr (of_decide_eq_true h))⟩
      | none =>
        rw [hw] at h
        exact ⟨_,if_pos (of_decide_eq_true h)⟩
    · rw [if_neg hword] at h
      cases h

theorem readBatchRaw_of_parses {r : Register} (h : parses r = true) (dev : Device)
    (address count : ℕ) : ∃ raw, readBatchRaw dev r.functionCode address count = .ok raw := by
  by_cases hbit : isBitCode r.functionCode = true
  · exact ⟨_,readBatchRaw_bits hbit dev address count⟩
  · by_cases hword : isWordCode r.functionCode = true
    · exact ⟨_,readBatchRaw_words hword dev address count⟩
    · unfold parses at h
      rw [if_neg hbit, if_neg hword] at h
      cases h

theorem map_ok {α β ε : Type} {f : α → β} {x : Except ε α} {y : β} (h : x.map f = .ok y) :
    ∃ a, x = .ok a ∧ f a = y := by
  cases x with
  | error e => cases h
  | ok a => exact ⟨a,rfl,Except.ok.inj h⟩

structure Asked (part : List Register) : Prop where
  ascending : part.Pairwise (fun a b => a.address ≤ b.address)
  code : ∀ r ∈ part, ∀ q ∈ part, r.functionCode = q.functionCode

theorem Asked.sublist {part whole : List Register} (h : Asked whole) (hs : part.Sublist whole) :
    Asked part :=
  ⟨h.ascending.sublist hs,fun r hr q hq => h.code r (hs.subset hr) q (hs.subset hq)⟩

theorem asked_of_batch {gapTolerance : ℤ} {registers batch : List Register} {code : FunctionCode}
    (h : batch ∈ batchesOf gapTolerance registers code) : Asked batch :=
  ⟨batch_sorted h,fun r hr q hq => (batch_code h r hr).trans (batch_code h q hq).symm⟩

theorem Asked.first_le {first : Register} {others : List Register} (h : Asked (first::others)) :
    ∀ r ∈ first::others, first.address ≤ r.address := by
  intro r hr
  rcases List.mem_cons.mp hr with rfl | hr
  · exact le_rfl
  · exact (List.pairwise_cons.mp h.ascending).1 r hr

/-- A request that gives values has parsed all its registers, each to the
value that it has alone. -/
theorem readRegisterBatch_values (dev : Device) {part : List Register} (h : Asked part)
    (hcov : Covered part) {results : List (Register × Value)}
    (hr : readRegisterBatch dev part = .ok results) :
    results.map (fun p => (p.1,Except.ok p.2)) = part.map (fun r => (r,readRegister dev r)) := by
  cases part with
  | nil =>
    obtain rfl : results = [] := by cases hr; rfl
    rfl
  | cons first others =>
    have hcode := h.code first List.mem_cons_self
    rw [readRegisterBatch] at hr
    cases hraw : readBatchRaw dev first.functionCode first.address
        (batchEnd first others-first.address) with
    | error e =>
      rw [hraw] at hr
      cases hr
    | ok raw =>
      rw [hraw] at hr
      have hparse : ∀ r ∈ first::others, parses r = true := by
        intro r hm
        obtain ⟨p,hp⟩ := (mapM_ok (g := fun _ => ()) (k := fun _ => ()) hr
          (fun _ _ _ _ => rfl)).1 r hm
        obtain ⟨v,hv,-⟩ := map_ok hp
        exact parses_of_parseRaw dev (hcode r hm) hraw hv
      -- all registers parsed, so the request is covered
      refine (mapM_ok hr fun r hm p hp => ?_).2
      obtain ⟨v,hv,rfl⟩ := map_ok hp
      rw [parse_inBatch dev (h.first_le r hm) (hcode r hm) hraw (hcov hparse r hm)] at hv
      exact Prod.ext rfl hv.symm

theorem readRegisterBatch_isOk (dev : Device) {part : List Register} (h : Asked part)
    (hparse : ∀ r ∈ part, parses r = true) :
    ∃ results, readRegisterBatch dev part = .ok results := by
  cases part with
  | nil => exact ⟨[],rfl⟩
  | cons first others =>
    obtain ⟨raw,hraw⟩ := readBatchRaw_of_parses (hparse first List.mem_cons_self) dev
      first.address (batchEnd first others-first.address)
    have hall : ∀ r ∈ first::others, ∃ p,
        (parseRaw r (registerData first raw r)).map (fun v => (r,v)) = .ok p := by
      intro r hr
      obtain ⟨v,hv⟩ := parseRaw_of_parses (h.code first List.mem_cons_self r hr) hraw (hparse r hr)
      exact ⟨(r,v),by rw [hv]; rfl⟩
    obtain ⟨results,hresults⟩ := mapM_isOk hall
    exact ⟨results,by rw [readRegisterBatch, hraw]; exact hresults⟩

/-- A fallback reports each register as it is alone, if the requests it
makes are covered. -/
theorem readBatchSmartFallback_eq (dev : Device) {batch : List Register} (h : Asked batch)
    (hcov : ∀ part ∈ requests batch, Covered part) :
    readBatchSmartFallback dev batch = batch.map (fun r => (r,readRegister dev r)) := by
  induction batch using readBatchSmartFallback.induct dev with
  | case1 => rw [readBatchSmartFallback]; rfl
  | case2 r => rw [readBatchSmartFallback]; rfl
  | case3 r q rest results hr =>
    have hwhole : Covered (r::q::rest) := hcov _ (by rw [requests]; exact List.mem_cons_self)
    rw [readBatchSmartFallback, hr]
    exact readRegisterBatch_values dev h hwhole hr
  | case4 r q rest e hr ihl ihr =>
    have hfail : ¬∀ x ∈ r::q::rest, parses x = true := by
      intro hparse
      obtain ⟨results,hok⟩ := readRegisterBatch_isOk dev h hparse
      rw [hok] at hr
      cases hr
    rw [requests, if_neg hfail] at hcov
    have hleft := ihl (h.sublist (List.take_sublist _ _)) fun part hpart =>
      hcov part (List.mem_cons_of_mem _ (List.mem_append_left _ hpart))
    have hright := ihr (h.sublist (List.drop_sublist _ _)) fun part hpart =>
      hcov part (List.mem_cons_of_mem _ (List.mem_append_right _ hpart))
    rw [readBatchSmartFallback, hr]
    simp only
    rw [hleft, hright, ← List.map_append, List.take_append_drop]

theorem reportBatch_eq (dev : Device) {batch : List Register} (h : Asked batch)
    (hcov : ∀ part ∈ requests batch, Covered part) :
    reportBatch dev batch = batch.map (fun r => (r,readRegister dev r)) := by
  unfold reportBatch
  split
  · rfl
  · rename_i hsingle
    split
    · rename_i results hr
      refine readRegisterBatch_values dev h ?_ hr
      cases batch with
      | nil => trivial
      | cons r rest =>
        cases rest with
        | nil => exact absurd rfl (hsingle r)
        | cons q rest => exact hcov _ (by rw [requests]; exact List.mem_cons_self)
    · exact readBatchSmartFallback_eq dev h hcov

/-- A poll reports each register of a batch as it is when it is read alone,
value or failure, if what it asks for together is covered. -/
theorem batched_reads_eq_single (gapTolerance : ℤ) (registers : List Register)
    (hcov : ∀ code, ∀ batch ∈ batchesOf gapTolerance registers code,
      ∀ part ∈ requests batch, Covered part)
    (dev : Device) (code : FunctionCode) (batch : List Register)
    (hb : batch ∈ batchesOf gapTolerance registers code) :
    reportBatch dev batch = batch.map (fun r => (r,readRegister dev r)) :=
  reportBatch_eq dev (asked_of_batch hb) (hcov code batch hb)

def adjacent : List Register :=
  [{ address := 0, functionCode := .readHoldingRegisters, dataType := .string, count := 2,
     byteOrder := some .ABCD, endianness := none, scale := 1, offset := 0,
     encoding := some .ascii, noBatch := false, count_pos := by decide },
   { address := 2, functionCode := .readHoldingRegisters, dataType := .uint16, count := 1,
     byteOrder := some .ABCD, endianness := none, scale := 1, offset := 0,
     encoding := some .ascii, noBatch := false, count_pos := by decide }]

def misfit : Register where
  address := 3
  functionCode := .readHoldingRegisters
  dataType := .int32
  count := 1
  byteOrder := some .ABCD
  endianness := none
  scale := 1
  offset := 0
  encoding := none
  noBatch := false
  count_pos := by decide

def letters : Device where
  bits _ _ := false
  words _ address := [0x4142,0x4344,0x4546,0x4748].getD address 0

theorem adjacent_reads_eq_single :
    reportBatch letters (adjacent++[misfit]) =
      (adjacent++[misfit]).map (fun r => (r,readRegister letters r)) := by
  have hb : batchesOf 2 (adjacent++[misfit]) .readHoldingRegisters = [adjacent++[misfit]] := rfl
  refine batched_reads_eq_single 2 (adjacent++[misfit]) (fun code batch hbatch => ?_) letters
    .readHoldingRegisters _ (by rw [hb]; exact List.mem_singleton_self _)
  cases code with
  | readHoldingRegisters =>
    rw [hb] at hbatch
    obtain rfl := List.mem_singleton.mp hbatch
    have hparts : requests (adjacent++[misfit]) =
        [adjacent++[misfit],(adjacent++[misfit]).drop 1] := by
      simp [requests, adjacent, misfit, parses, isBitCode, isWordCode, width]
    rw [hparts]
    decide
  | _ => exact absurd hbatch List.not_mem_nil

/-- The batches are covered exactly when every register whose words are cut
out of a response gets, whatever the device holds, the words its value is
made of. -/
theorem covered_iff_sameWords {gapTolerance : ℤ} {registers : List Register} {code : FunctionCode}
    {first : Register} {others : List Register}
    (hb : first::others ∈ batchesOf gapTolerance registers code) :
    Covered (first::others) ↔ ((∀ r ∈ first::others, parses r = true) →
      ∀ r ∈ first::others, isWordCode code = true → ∀ memory,
        usedWords r (wordsInBatch memory first.address (batchEnd first others) r) =
          usedWords r (wordsAlone memory r)) := by
  have hcode := batch_code hb
  have hasc := batch_ascending hb
  constructor
  · intro hcov hall r hr hword
    rw [← hcode r hr] at hword
    have hc := hcov hall r hr
    unfold reach at hc
    rw [isBitCode_of_isWordCode hword] at hc
    exact (usedWords_inBatch_iff (hasc r hr) (hall r hr) hword).mpr hc
  · intro hsame hall r hr
    unfold reach
    by_cases hword : isWordCode r.functionCode = true
    · rw [isBitCode_of_isWordCode hword]
      apply (usedWords_inBatch_iff (hasc r hr) (hall r hr) hword).mp
      exact hsame hall r hr (hcode r hr ▸ hword)
    · have hbit : isBitCode r.functionCode = true := by
        by_contra hbit
        have hp := hall r hr
        unfold parses at hp
        rw [if_neg hbit, if_neg hword] at hp
        cases hp
      rw [if_pos hbit]
      exact batch_end hb r hr

theorem covered_iff_sameWords_adjacent :
    Covered adjacent ↔ ((∀ r ∈ adjacent, parses r = true) →
      ∀ r ∈ adjacent, isWordCode .readHoldingRegisters = true → ∀ memory,
        usedWords r (wordsInBatch memory 0 3 r) = usedWords r (wordsAlone memory r)) :=
  covered_iff_sameWords (by
    have hb : batchesOf 2 adjacent .readHoldingRegisters = [adjacent] := rfl
    rw [hb]
    exact List.mem_singleton_self _)

/-- A string of four words and a number inside its range: the batch ends
with the number, and only the first half of the string is read. -/
def overlapping : List Register :=
  [{ address := 0, functionCode := .readHoldingRegisters, dataType := .string, count := 4,
     byteOrder := some .ABCD, endianness := none, scale := 1, offset := 0,
     encoding := some .ascii, noBatch := false, count_pos := by decide },
   { address := 1, functionCode := .readHoldingRegisters, dataType := .uint16, count := 1,
     byteOrder := some .ABCD, endianness := none, scale := 1, offset := 0,
     encoding := some .ascii, noBatch := false, count_pos := by decide }]

theorem overlapped_string_cut_short :
    ¬ ∀ (dev : Device) (code : FunctionCode), ∀ batch ∈ batchesOf 2 overlapping code,
      ∀ p ∈ reportBatch dev batch, p.2 = readRegister dev p.1 := by
  intro h
  have hb : batchesOf 2 overlapping .readHoldingRegisters = [overlapping] := rfl
  obtain ⟨v,hr⟩ : ∃ v, reportBatch letters overlapping =
      [(overlapping[0],.ok (.text "ABCD")),(overlapping[1],v)] := ⟨_,rfl⟩
  have hbatch := h letters .readHoldingRegisters overlapping (by simp [hb])
    (overlapping[0],.ok (.text "ABCD")) (by rw [hr]; exact List.mem_cons_self)
  have halone : readRegister letters overlapping[0] = .ok (.text "ABCDEFGH") := rfl
  rw [halone] at hbatch
  have htext := Value.text.inj (Except.ok.inj hbatch)
  exact absurd htext (by decide)

end Iotistica.Modbus
